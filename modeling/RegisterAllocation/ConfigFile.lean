import RegisterAllocation.RegisterFile
import RegisterAllocation.Toml.Keys
import RegisterAllocation.Toml.Reader

namespace RegisterAllocation.ConfigFile

inductive SettingType where
  | names | name | word
  deriving DecidableEq, Repr

def SettingType.text : SettingType → String
  | .names => "[]string"
  | .name => "string"
  | .word => "int"

-- A line that no setting can take in. Other lines of the wrong type are merely malformed.
inductive Misuse where
  | moment (form : Toml.Moment) (type : SettingType)
  | tableBelow (type : SettingType)
  | tableInNoItem
  | unlocatedKey
  deriving DecidableEq, Repr

def momentText : Toml.Moment → String
  | .date => "toml.LocalDate"
  | .time => "toml.LocalTime"
  | .dateTime => "toml.LocalDateTime"
  | .instant => "time.Time"

def Misuse.message : Misuse → String
  | .moment form type =>
    s!"reflect.Set: value of type {momentText form} is not assignable to type {type.text}"
  | .tableBelow type => s!"unhandled part: {type.text}"
  | .tableInNoItem => "reflect: slice index out of range"
  | .unlocatedKey => "key is not in the document"

inductive ConfigError where
  | malformed
  | misuse (cause : Misuse)
  | negativeRetry (retry : Word)
  deriving DecidableEq, Repr

def parsePrefix : String := "failed to parse config file: "

def ConfigError.message : ConfigError → String
  | .malformed => parsePrefix ++ "malformed configuration"
  | .misuse cause => cause.message
  | .negativeRetry retry => "retry must not be negative, got " ++ retry.text

inductive NamesSetting where
  | args | callerSaved | calleeSaved | allocatable
  deriving DecidableEq, Repr

def NamesSetting.get (cfg : Config) : NamesSetting → List String
  | .args => cfg.args.getD []
  | .callerSaved => cfg.callerSaved.getD []
  | .calleeSaved => cfg.calleeSaved.getD []
  | .allocatable => cfg.allocatable.getD []

def NamesSetting.set (cfg : Config) (names : List String) : NamesSetting → Config
  | .args => { cfg with args := some names }
  | .callerSaved => { cfg with callerSaved := some names }
  | .calleeSaved => { cfg with calleeSaved := some names }
  | .allocatable => { cfg with allocatable := some names }

inductive NameSetting where
  | result | sp | tempPrefix
  deriving DecidableEq, Repr

def NameSetting.set (cfg : Config) (name : String) : NameSetting → Config
  | .result => { cfg with result := name }
  | .sp => { cfg with sp := name }
  | .tempPrefix => { cfg with tempPrefix := name }

inductive Setting where
  | names (which : NamesSetting)
  | name (which : NameSetting)
  | retry
  deriving DecidableEq, Repr

-- Keys are compared in lower case; two capitals beyond ASCII have a small letter within it.
def lowerChar (c : Char) : Char :=
  match c.toNat with
  | 0x130 => 'i'
  | 0x212a => 'k'
  | _ => c.toLower

def setting? (key : String) : Option Setting :=
  match key.map lowerChar with
  | "args" => some (.names .args)
  | "caller_saved" => some (.names .callerSaved)
  | "callee_saved" => some (.names .calleeSaved)
  | "result" => some (.name .result)
  | "sp" => some (.name .sp)
  | "allocatable" => some (.names .allocatable)
  | "retry" => some .retry
  | "temp_prefix" => some (.name .tempPrefix)
  | _ => none

def separated? : List Char → Option (List Char)
  | [] => some []
  | '_' :: _ => none
  | [c] => some [c]
  | c :: '_' :: rest =>
    match rest with
    | [] => none
    | rest => (separated? rest).map (c :: ·)
  | c :: rest => (separated? rest).map (c :: ·)

def baseValue? (base : Nat) (digits : List Char) : Option Nat :=
  if digits.isEmpty then none
  else digits.foldlM (fun n c => do
    let d ← Json.Token.hexValue? c
    if d < base then some (n * base + d) else none) 0

def decimalValue? (digits : List Char) : Option Nat := do
  let digits ← separated? digits
  if digits.length > 1 ∧ digits.head? = some '0' then none else baseValue? 10 digits

def integerValue? (text : String) : Option Int :=
  match text.toList with
  | '0' :: 'x' :: c :: rest => do
    let n ← baseValue? 16 (← separated? (c :: rest))
    some n
  | '0' :: 'o' :: c :: rest => do
    let n ← baseValue? 8 (← separated? (c :: rest))
    some n
  | '0' :: 'b' :: c :: rest => do
    let n ← baseValue? 2 (← separated? (c :: rest))
    some n
  | '-' :: digits => (decimalValue? digits).map fun n => -n
  | '+' :: digits => (decimalValue? digits).map fun n => n
  | digits => (decimalValue? digits).map fun n => n

def unfit (form : Toml.Moment) (text : String) (type : SettingType) : ConfigError :=
  if form.isReal text then .misuse (.moment form type) else .malformed

def nameValue : Toml.Value → Except ConfigError String
  | .str s => .ok s
  | .moment form text => .error (unfit form text .name)
  | _ => .error .malformed

def namesValue : Toml.Value → Except ConfigError (List String)
  | .arr items => items.mapM nameValue
  | .moment form text => .error (unfit form text .names)
  | _ => .error .malformed

def wordValue : Toml.Value → Except ConfigError Word
  | .integer text =>
    match (integerValue? text).bind Word.ofInt? with
    | some w => .ok w
    | none => .error .malformed
  | .moment form text => .error (unfit form text .word)
  | _ => .error .malformed

def assign (cfg : Config) (v : Toml.Value) : Setting → Except ConfigError Config
  | .names which => return which.set cfg (← namesValue v)
  | .name which => return which.set cfg (← nameValue v)
  | .retry => return { cfg with retry := ← wordValue v }

inductive Target where
  | settings | ignored | setting
  deriving DecidableEq, Repr

structure Loading where
  config : Config := {}
  keys : Toml.Keys := {}
  target : Target := .settings

def orMalformed {α : Type} : Option α → Except ConfigError α
  | some a => .ok a
  | none => .error .malformed

def pair (l : Loading) (key : Toml.Key) (v : Toml.Value) : Except ConfigError Loading :=
  match l.target with
  | .ignored => .ok l
  | .setting => .error .malformed
  | .settings => do
    let keys ← orMalformed (l.keys.pair? l.keys.current key.names)
    if v.wellKeyed then
      match key with
      | [] => .error .malformed
      | part :: rest =>
        match setting? part.name with
        | none => return { l with keys := keys }
        | some setting =>
          if rest.isEmpty then return { l with config := ← assign l.config v setting, keys := keys }
          else .error .malformed
    else .error .malformed

-- The head of a table that is a setting is taken if nothing has to be stored for it; in a list it
-- stands for the last name. A list without names refuses it at the place of its key in the document,
-- where a key with escapes cannot be found. There are no tables below a setting.
def openTable (cfg : Config) (isEscaped isDirect : Bool) : Setting → Except ConfigError Unit
  | .names which =>
    if (which.get cfg).isEmpty then .error (if isEscaped then .misuse .unlocatedKey else .malformed)
    else if isDirect then .ok () else .error (.misuse (.tableBelow .name))
  | .name _ => if isDirect then .ok () else .error (.misuse (.tableBelow .name))
  | .retry => if isDirect then .ok () else .error (.misuse (.tableBelow .word))

def headSetting? (key : Toml.Key) : Option (Setting × Bool) := do
  let part ← key.head?
  let setting ← setting? part.name
  some (setting, part.escaped)

def table (l : Loading) (key : Toml.Key) : Except ConfigError Loading := do
  let keys ← orMalformed (l.keys.table? key.names)
  match headSetting? key with
  | none => return { l with keys := keys, target := .ignored }
  | some (setting, isEscaped) =>
    openTable l.config isEscaped (key.length = 1) setting
    return { l with keys := keys, target := .setting }

-- One more table of an array adds an empty name to a list, which the first table empties.
def openArrayTable (cfg : Config) (isDirect isFirst : Bool) : Setting → Except ConfigError Config
  | .names which =>
    let names := which.get cfg
    if isDirect then .ok (which.set cfg ((if isFirst then [] else names) ++ [""]))
    else if names.isEmpty then .error (.misuse .tableInNoItem)
    else .error (.misuse (.tableBelow .name))
  | .name _ => .error (if isDirect then .malformed else .misuse (.tableBelow .name))
  | .retry => .error (if isDirect then .malformed else .misuse (.tableBelow .word))

def arrayTable (l : Loading) (key : Toml.Key) : Except ConfigError Loading := do
  let isFirst := (l.keys.find? key.names).isNone
  let keys ← orMalformed (l.keys.arrayTable? key.names)
  match headSetting? key with
  | none => return { l with keys := keys, target := .ignored }
  | some (setting, _) =>
    let config ← openArrayTable l.config (key.length = 1) isFirst setting
    return { config := config, keys := keys, target := .setting }

def line (l : Loading) : Toml.Line → Except ConfigError Loading
  | .pair key v => pair l key v
  | .table key => table l key
  | .arrayTable key => arrayTable l key

-- Reads a configuration. Keys and tables that are no settings are passed over. The first line that
-- cannot be read or taken in decides how it fails.
def parse (text : String) : Except ConfigError Config := do
  let document := Toml.parse text
  let l ← document.lines.foldlM line {}
  if ¬ document.complete then .error .malformed
  else if l.config.retry < 0 then .error (.negativeRetry l.config.retry)
  else .ok l.config

end RegisterAllocation.ConfigFile
