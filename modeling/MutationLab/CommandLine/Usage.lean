/-! # Usage

What is shown to a user who asks for help or gives arguments that are not understood. -/

namespace MutationLab.CommandLine

/-- The commands and their arguments. -/
def usage : String :=
  "Mutation testing for IR modules

Commands:
  run MODULES...   Run the mutation pipeline over a set of JSON modules
  compile MODULE --output FILE
                   Compile one JSON module into an object file
  mutators         List mutation operators
  help             Show this text

Options of run:
  --config FILE              JSON configuration file; options override it
  --workers N                General worker pool size
  --test-workers N           Coverage discovery pool size
  --mutant-workers N         Mutant execution pool size
  --dry-run                  Skip compilation and execution of mutants
  --mutators NAMES           Operator ids or groups, separated by commas
  --exclude-function TEXT    Skip functions whose name contains this fragment
  --exclude-path TEXT        Skip points whose file contains this fragment
  --include-path TEXT        Only keep points whose file contains this fragment
  --max-distance N           Skip functions reached only deeper than this distance
  --require-debug-info       Skip what has no source location
  --ide-reporter MODE        Emit editor diagnostics: survived, killed or all
  --timeout-ms N             Limit of a test in milliseconds
  --dylib FILE               Object file to preload as a dynamic library
  --object FILE              Object file added to every link
  --cache-dir DIRECTORY      Directory caching compiled objects
  --format FORMAT            Report format: md or json
"

end MutationLab.CommandLine
