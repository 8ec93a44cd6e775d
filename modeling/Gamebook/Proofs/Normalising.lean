/-
# Documents that are validated again

Validation brings a document into a normal form: the record that is left says the same as
the document, and it can be written out as a document again.  The records that are left are
the valid ones (`AdventureRecord.exists_validate_eq_iff`), and what a valid record is
written as is validated to that record, so a second validation changes nothing
(`AdventureRecord.validate_idempotent`).

A builder sees nothing of a document but its record.  So it makes no difference whether it
is given the document, the record or the record written out (`Request.build_normalised`).
-/

import Gamebook.Proofs.Building

namespace Gamebook

/-! ## Records under the field names of documents -/

/-- An option is written with its fields as members. -/
theorem OptionRecord.exists_shownBy_toJson (r : OptionRecord) :
    ∃ ms, r.toJson = .object ms ∧ r.ShownBy ms :=
  ⟨_, rfl, rfl, rfl, rfl, rfl, rfl⟩

/-- A scene is written with its fields as members, and its options with theirs. -/
theorem SceneRecord.exists_shownBy_toJson (r : SceneRecord) :
    ∃ ms, r.toJson = .object ms ∧ r.ShownBy ms := by
  refine ⟨_, rfl, rfl, rfl, rfl, rfl, _, rfl, ?_⟩
  rw [List.forall₂_map_right_iff]
  exact List.forall₂_same.2 fun o _ => o.exists_shownBy_toJson

namespace AdventureRecord

variable {document : Json} {r : AdventureRecord}

/-- A record is shown by the members of the object that it is written as. -/
theorem exists_shownBy_toJson (r : AdventureRecord) :
    ∃ ms, r.toJson = .object ms ∧ r.ShownBy ms := by
  refine ⟨_, rfl, rfl, rfl, rfl, rfl, rfl, rfl, rfl, rfl, rfl, _, rfl, ?_⟩
  rw [List.forall₂_map_right_iff]
  exact List.forall₂_same.2 fun s _ => s.exists_shownBy_toJson

/-- A valid record is validated from what it is written as. -/
theorem IsValid.validate_toJson (h : r.IsValid) : validate r.toJson = .ok r := by
  obtain ⟨ms, hms, hshown⟩ := r.exists_shownBy_toJson
  exact hms ▸ h.validate_eq hshown

/-- **The records of documents are the valid ones.** -/
theorem exists_validate_eq_iff : (∃ document, validate document = .ok r) ↔ r.IsValid :=
  ⟨fun ⟨_, h⟩ => (of_validate h).2, fun h => ⟨r.toJson, h.validate_toJson⟩⟩

/-- A document is validated to a record that stays as it is. -/
theorem validate_idempotent (h : validate document = .ok r) : validate r.toJson = .ok r :=
  (exists_validate_eq_iff.1 ⟨document, h⟩).validate_toJson

end AdventureRecord

/-! ## What is built from them -/

/-- Only the record of a payload counts in assembling. -/
theorem Payload.assemble_of_validate {payload : Payload} {record : AdventureRecord}
    (h : payload.validate = .ok record) (r : Registry) : payload.assemble r = r.assemble record := by
  rw [assemble_eq, h]
  rfl

namespace Request

/-- Only the record of a payload counts in a build. -/
theorem answer_build_of_validate {payload : Payload} {record : AdventureRecord}
    (h : payload.validate = .ok record) (s : Session) :
    (build payload).answer s = (build (.record record)).answer s := by
  have hassemble : payload.assemble s.story.registry =
      (Payload.record record).assemble s.story.registry := Payload.assemble_of_validate h _
  rw [answer_build, answer_build, hassemble]

/-- **Documents are normalised once.**  The record of a document is written as a document with
that record, whichever name is taken for a field that has two and in whatever order.  A build
has the same result and leaves the same behind for the document, for its record and for what
the record is written as, whether it is refused or not. -/
theorem build_normalised {document : Json} {record : AdventureRecord}
    (h : AdventureRecord.validate document = .ok record) :
    AdventureRecord.validate record.toJson = .ok record ∧
    (∀ ms, record.WrittenIn ms → AdventureRecord.validate (.object ms) = .ok record) ∧
    (∀ r : Registry, r.assembleDocument document = r.assemble record ∧
      r.assembleDocument record.toJson = r.assemble record) ∧
    ∀ s, (build (.document document)).answer s = (build (.record record)).answer s ∧
      (build (.document record.toJson)).answer s = (build (.record record)).answer s ∧
      ∀ ms, record.WrittenIn ms →
        (build (.document (.object ms))).answer s = (build (.record record)).answer s := by
  have hvalid : record.IsValid := AdventureRecord.exists_validate_eq_iff.1 ⟨document, h⟩
  have hwritten (ms : List (String × Json)) (hms : record.WrittenIn ms) :
      AdventureRecord.validate (.object ms) = .ok record := hvalid.validate_of_writtenIn hms
  have hgiven : (Payload.document document).validate = .ok record := h
  have hagain : (Payload.document record.toJson).validate = .ok record := hvalid.validate_toJson
  have hother (ms : List (String × Json)) (hms : record.WrittenIn ms) :
      (Payload.document (.object ms)).validate = .ok record := hwritten ms hms
  refine ⟨hagain, hwritten, fun r => ⟨?_, ?_⟩, fun s => ⟨?_, ?_, fun ms hms => ?_⟩⟩
  · exact Payload.assemble_of_validate hgiven r
  · exact Payload.assemble_of_validate hagain r
  · exact answer_build_of_validate hgiven s
  · exact answer_build_of_validate hagain s
  · exact answer_build_of_validate (hother ms hms) s

/-- A document with blanks, statements in one text, a blank condition and a blank start is
normalised, and so is its record with the other names for the fields that have two. -/
theorem build_normalised_untidy :
    let document : Json := .object
      [("name", .string " a "), ("title", .string " T"), ("version", .int 1),
       ("requires", .string "inkspire; b ,"), ("actions", .string " x = 1; y = 2 "),
       ("globalTop", .string ""), ("starting_scene", .string " "),
       ("scenes", .array
         [.object
           [("name", .string " start"), ("title", .string "S"), ("content", .ofTexts [""]),
            ("actions", .ofTexts [" ", "x += 1"]),
            ("options", .array
              [.object
                [("label", .string "on"), ("target", .string " inkspire:exit "),
                 ("condition", .string " "), ("always_visible", .bool true)]])]])]
    let record : AdventureRecord :=
      { name := "a", title := " T", version := 1, requires := ["inkspire", "b"],
        actions := [" x = 1; y = 2 "], globalTop := some "", scenes :=
        [{ name := "start", title := "S", content := [""], actions := ["x += 1"], options :=
          [{ label := "on", target := "inkspire:exit", alwaysVisible := true }] }] }
    let other : List (String × Json) :=
      [("scenes", .array (record.scenes.map SceneRecord.toJson)), ("name", .string "a"),
       ("title", .string " T"), ("version", .int 1), ("author", .null),
       ("requires", .ofTexts ["inkspire", "b"]), ("actions", .ofTexts [" x = 1; y = 2 "]),
       ("global_top", .string ""), ("global_bottom", .null), ("starting_scene", .string "start")]
    AdventureRecord.validate document = .ok record ∧ record.WrittenIn other ∧
      AdventureRecord.validate record.toJson = .ok record ∧
      AdventureRecord.validate (.object other) = .ok record ∧
      ∀ s, (build (.document document)).answer s = (build (.document (.object other))).answer s := by
  intro document record other
  have hvalid : AdventureRecord.validate document = .ok record := by rfl
  have hother : record.WrittenIn other := by
    obtain ⟨items, hitems, hshown⟩ : ∃ items, other.lookup "scenes" = some (.array items) ∧
        List.Forall₂ (fun s item => ∃ ms, item = .object ms ∧ SceneRecord.ShownBy s ms)
          record.scenes items := by
      refine ⟨_, rfl, ?_⟩
      rw [List.forall₂_map_right_iff]
      exact List.forall₂_same.2 fun s _ => s.exists_shownBy_toJson
    refine ⟨rfl, rfl, rfl, rfl, rfl, rfl, ⟨_, rfl⟩, ⟨_, rfl⟩, ⟨_, rfl⟩, items, hitems,
      hshown.imp ?_⟩
    rintro s _ ⟨ms, rfl, hs⟩
    exact ⟨ms, rfl, hs.writtenIn⟩
  obtain ⟨hagain, hwritten, -, hbuild⟩ := build_normalised hvalid
  refine ⟨hvalid, hother, hagain, hwritten other hother, fun s => ?_⟩
  obtain ⟨hdocument, -, hwrites⟩ := hbuild s
  exact hdocument.trans (hwrites other hother).symm

end Request
end Gamebook
