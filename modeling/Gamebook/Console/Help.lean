/-
# Help

The text that explains the command line.
-/

namespace Gamebook
namespace Console

/-- The lines of the help text. -/
def helpLines : List String :=
  ["usage: main.py [-h] [--adventure ADVENTURE] [--adventure-dir ADVENTURE_DIR]",
   "               [--history-capacity HISTORY_CAPACITY]",
   "               [--log-level \x7bDEBUG,INFO,WARNING,ERROR\x7d] [--dump]",
   "               [adventure_file]",
   "",
   "Play an Inkspire adventure",
   "",
   "positional arguments:",
   "  adventure_file        Path to an adventure JSON file. Defaults to the",
   "                        bundled demo.",
   "",
   "options:",
   "  -h, --help            show this help message and exit",
   "  --adventure ADVENTURE",
   "                        Name of the loaded adventure to play (default: the one",
   "                        loaded first).",
   "  --adventure-dir ADVENTURE_DIR",
   "                        Directory searched for required adventures. Defaults",
   "                        to INKSPIRE_ADVENTURE_DIR or the adventure file's",
   "                        directory.",
   "  --history-capacity HISTORY_CAPACITY",
   "                        Number of scenes remembered for going back (default:",
   "                        16).",
   "  --log-level \x7bDEBUG,INFO,WARNING,ERROR\x7d",
   "                        Verbosity of diagnostic logging written to stderr.",
   "  --dump                Print the linked adventures as JSON instead of",
   "                        playing."]

end Console
end Gamebook
