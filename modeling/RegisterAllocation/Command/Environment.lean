import RegisterAllocation.Command.Options

namespace RegisterAllocation.Command

-- The variables of the environment that the command looks at. A number that cannot be read counts
-- as not set.
structure Environment where
  config : String := ""
  threads : Option Word := none
  retry : Option Word := none
  verbose : Bool := false
  deriving DecidableEq, Repr

namespace Environment

def configName : String := "L2C_CONFIG"

def threadsName : String := "L2C_THREADS"

def retryName : String := "L2C_RETRY"

def verboseName : String := "L2C_VERBOSE"

def isTrue (text : String) : Bool :=
  ["1", "true", "yes", "on", "y", "t"].contains (text.map Char.toLower)

def ofLookup (lookup : String → Option String) : Environment where
  config := (lookup configName).getD ""
  threads := (lookup threadsName).bind Word.read?
  retry := (lookup retryName).bind Word.read?
  verbose := ((lookup verboseName).map isTrue).getD false

end Environment

def Options.withEnvironment (o : Options) (env : Environment) : Options :=
  { o with
    config := if o.config.isEmpty then env.config else o.config
    threads := if o.threads < 2 then (env.threads.bind Options.threadCount?).getD o.threads
      else o.threads
    verbose := o.verbose || env.verbose }

def Environment.overrides (env : Environment) : Config :=
  match env.retry with
  | some n => if 0 < n then { retry := n } else {}
  | none => {}

end RegisterAllocation.Command
