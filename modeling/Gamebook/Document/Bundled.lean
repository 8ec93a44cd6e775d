/-
# The bundled adventures

Two adventures that come with the library.  `demo` is the one played when no
file is given; it requires `cellar`, and `cellar` requires it in turn.
-/

import Gamebook.Document.Record

namespace Gamebook
namespace Bundled

/-- The adventure of a lighthouse keeper, played by default. -/
def demo : Json :=
  .object
    [("title", .string "The Lantern Keeper"),
     ("name", .string "demo"),
     ("author", .string "Inkspire"),
     ("version", .int 1),
     ("requires", .string "cellar"),
     ("actions", .string "oil = 3; coins = 0; visits = 0"),
     ("globalBottom", .string "?\x7boil<=1?Your lantern gutters dangerously.\x7d"),
     ("startingScene", .string "gate"),
     ("scenes", .array
       [.object
          [("name", .string "gate"),
           ("title", .string "The Lighthouse Gate"),
           ("actions", .string "visits += 1"),
           ("content", .ofTexts
             ["Salt wind rattles the iron gate of the old lighthouse.",
              "?\x7bvisits>1?You have stood here $\x7bvisits\x7d times now.\x7d"]),
           ("options", .array
             [.object [("label", .string "Climb the stairs"), ("target", .string "stairs")],
              .object
                [("label", .string "Descend into the cellar"),
                 ("target", .string "cellar:landing")],
              .object [("label", .string "Walk away"), ("target", .string "inkspire:exit")]])],
        .object
          [("name", .string "stairs"),
           ("title", .string "The Spiral Stairs"),
           ("actions", .string "oil -= 1"),
           ("content", .ofTexts
             ["Each step creaks. Your lantern holds $\x7boil\x7d measures of oil.",
              "?\x7bcoins>=2?The coins in your pocket clink against the rail.|Your pockets are empty.\x7d"]),
           ("options", .array
             [.object
                [("label", .string "Light the great lamp"),
                 ("target", .string "inkspire:pass"),
                 ("condition", .string "oil=1.. && coins=2.."),
                 ("alwaysVisible", .bool true)],
              .object
                [("label", .string "Go back the way you came"),
                 ("target", .string "inkspire:back")],
              .object
                [("label", .string "Sit down and give up"),
                 ("target", .string "inkspire:fail")]])]])]

/-- The cellar below the lighthouse. -/
def cellar : Json :=
  .object
    [("title", .string "The Flooded Cellar"),
     ("name", .string "cellar"),
     ("author", .string "Inkspire"),
     ("version", .int 1),
     ("requires", .ofTexts ["demo"]),
     ("actions", .string "searched = 0"),
     ("startingScene", .string "landing"),
     ("scenes", .array
       [.object
          [("name", .string "landing"),
           ("title", .string "Cellar Landing"),
           ("content", .ofTexts
             ["Water laps at the bottom step.",
              "?\x7bsearched==0?Something glints beneath the surface.|The water is still.\x7d"]),
           ("options", .array
             [.object
                [("label", .string "Search the water"),
                 ("target", .string "landing"),
                 ("condition", .string "searched == 0"),
                 ("actions", .string "searched = 1; demo:coins += 2; demo:oil += 1")],
              .object
                [("label", .string "Wade into the dark"),
                 ("target", .string "drowned"),
                 ("condition", .string "demo:oil=..0"),
                 ("alwaysVisible", .bool true)],
              .object [("label", .string "Climb back up"), ("target", .string "demo:gate")]])],
        .object
          [("name", .string "drowned"),
           ("title", .string "Lost in the Dark"),
           ("content", .ofTexts ["Without light, you lose your footing."]),
           ("options", .array
             [.object
                [("label", .string "Sink beneath the water"),
                 ("target", .string "inkspire:fail")]])]])]

/-- The bundled adventures by their names. -/
def documents : List (String × Json) := [("demo", demo), ("cellar", cellar)]

end Bundled
end Gamebook
