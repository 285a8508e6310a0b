import RegisterAllocation.Command.Options

namespace RegisterAllocation.Command

namespace Help

-- Cells of a column are filled up to one more than the longest, and to six at least.
def width (rows : List (String × String)) : Nat :=
  rows.foldl (fun w row => max w (row.1.length + 1)) 6

def fill (w : Nat) (cell : String) : String :=
  cell ++ String.ofList (List.replicate (w - cell.length) (Char.ofNat 0))

def block (rows : List (String × String)) : String :=
  String.join (rows.map fun (flag, use) => fill (width rows) flag ++ use ++ "\n")

def text : String :=
  "usage: l2c [flags] [program.json]\n"
    ++ block [("-h, -help", "Prints this help message and exits the application.")]
    ++ "--h, --help\n"
    ++ block [
      ("-l", "Print the liveness IN and OUT sets of every instruction."),
      ("-i", "Print the interference graph."),
      ("-c", "Run one colouring attempt and print the colours."),
      ("-s %var", "Spill variable %var once and print the result."),
      ("-fn @name", "Restrict -l, -i, -c and -s to one function."),
      ("-o", "Path and name of the output file."),
      ("-f", "Output format of allocated programs, either 'l2' or 'json'. Defaults to 'l2'."),
      ("-cc", "Path to a TOML file overriding the x86-64 calling convention."),
      ("-t", s!"Number of threads to run in parallel. Must be in range [1, {maxThreads}]."),
      ("-v, -version", "Prints application version and exits the application.")]
    ++ "--v, --version\n"
    ++ block [("-vb", "Verbose mode: log every allocation step to stderr.")]

end Help

def versionText : String := "l2c register allocator 1.0\n"

end RegisterAllocation.Command
