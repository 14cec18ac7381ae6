import MonkeyFront.CommandLine.Switch

/-!
# Usage

What the command says about itself.
-/

namespace MonkeyFront.CommandLine

/-- How the command is used. -/
def usage : String :=
  "usage: monkey [-h] [-s] [--tokens | --json] [-o OUTFILE] [--strict] [--repl]\n"
    ++ "              [-v]\n"
    ++ "              [source]\n"

/-- What the parts of the command line mean. -/
def helpText : String :=
  usage ++ "\npositional arguments:\n"
    ++ "  source                Filename or raw source (with -s)\n"
    ++ "\noptions:\n"
    ++ "  -h, --help            show this help message and exit\n"
    ++ "  -s, --string          Interpret source as literal string\n"
    ++ "  --tokens              Print tokens instead of the tree\n"
    ++ "  --json                Print the tree as JSON\n"
    ++ "  -o OUTFILE, --out OUTFILE\n"
    ++ "                        Output to file\n"
    ++ "  --strict              Raise on the first failed parse\n"
    ++ "  --repl                Launch interactive REPL instead of parsing\n"
    ++ "  -v, --verbose         Enable debug logging\n"

/-- What is said about a misuse. -/
def complaint (misuse : Misuse) : String := usage ++ "monkey: error: " ++ misuse.message ++ "\n"

end MonkeyFront.CommandLine
