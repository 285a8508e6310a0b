import Mathlib.Data.List.Forall2
import RegisterAllocation.Json.Reader
import RegisterAllocation.Json.Writer

namespace RegisterAllocation.Json

-- The values without a fraction or an exponent in them. All others are written as they were read.
inductive Plain : Json → Prop where
  | null : Plain .null
  | bool (value : Bool) : Plain (.bool value)
  | int (value : Int) : Plain (.int value)
  | str (value : String) : Plain (.str value)
  | arr {items : List Json} (all : ∀ v ∈ items, Plain v) : Plain (.arr items)
  | obj {fields : List (String × Json)} (all : ∀ field ∈ fields, Plain field.2) : Plain (.obj fields)

mutual

def tokens : Json → List Token
  | .null => [.null]
  | .bool b => [.bool b]
  | .int n => [.int n]
  | .real text => [.real text]
  | .str s => [.str s]
  | .arr items => .openArr :: ([Token.comma].intercalate (itemTokens items) ++ [.closeArr])
  | .obj fields => .openObj :: ([Token.comma].intercalate (fieldTokens fields) ++ [.closeObj])

def itemTokens : List Json → List (List Token)
  | [] => []
  | item :: rest => tokens item :: itemTokens rest

def fieldTokens : List (String × Json) → List (List Token)
  | [] => []
  | (key, value) :: rest => (.str key :: .colon :: tokens value) :: fieldTokens rest

end

theorem intercalate_cons {α : Type} (mark : α) (first : List α) (rest : List (List α)) :
    [mark].intercalate (first :: rest) = first ++ rest.flatMap (mark :: ·) := by
  induction rest generalizing first with
  | nil => simp
  | cons next rest ih => rw [List.intercalate_cons_cons, ih]; simp

namespace Token

variable {state : Scan} {done found : List Token} {chars rest : List Char} {c : Char} {t : Token}

def scanFrom (p : Progress) (chars : List Char) : Option (List Token) := do
  let p ← chars.foldlM Progress.step? p
  let last ← close? p.state
  some (p.done.reverse ++ last)

theorem scanFrom_cons {p p' : Progress} (step : p.step? c = some p') (rest : List Char) :
    scanFrom p (c :: rest) = scanFrom p' rest := by
  rw [scanFrom, List.foldlM_cons, step]
  rfl

theorem scanFrom_append {p p' : Progress} (steps : chars.foldlM Progress.step? p = some p')
    (rest : List Char) : scanFrom p (chars ++ rest) = scanFrom p' rest := by
  rw [scanFrom, List.foldlM_append, steps]
  rfl

-- What may stand after a value: nothing, or a comma, or the end of the line. None of these belongs to a
-- number or a word.
def Apart : List Char → Prop
  | [] => True
  | c :: _ => c = ',' ∨ c = '\n'

-- Wherever they stand, the characters are read as the tokens.
def Scans (chars : List Char) (found : List Token) : Prop :=
  ∀ done rest, Apart rest →
    scanFrom ⟨.idle, done⟩ (chars ++ rest) = scanFrom ⟨.idle, found.reverse ++ done⟩ rest

theorem scanFrom_mark (mark : begin? c = some (.idle, [t])) (rest : List Char) :
    scanFrom ⟨.idle, done⟩ (c :: rest) = scanFrom ⟨.idle, t :: done⟩ rest := by
  refine scanFrom_cons ?_ rest
  simp [Progress.step?, step?, close?, mark]

theorem scanFrom_blank (blank : begin? c = some (.idle, [])) (rest : List Char) :
    scanFrom ⟨.idle, done⟩ (c :: rest) = scanFrom ⟨.idle, done⟩ rest := by
  refine scanFrom_cons ?_ rest
  simp [Progress.step?, step?, close?, blank]

theorem toList_newline (depth : Nat) : (newline depth).toList = '\n' :: List.replicate (2 * depth) ' ' := by
  simp [newline]

theorem scanFrom_newline (depth : Nat) (rest : List Char) :
    scanFrom ⟨.idle, done⟩ ((newline depth).toList ++ rest) = scanFrom ⟨.idle, done⟩ rest := by
  have blanks : ∀ n, scanFrom ⟨.idle, done⟩ (List.replicate n ' ' ++ rest) = scanFrom ⟨.idle, done⟩ rest := by
    intro n
    induction n with
    | zero => rfl
    | succ n ih => rw [List.replicate_succ, List.cons_append, scanFrom_blank rfl, ih]
  rw [toList_newline, List.cons_append, scanFrom_blank rfl, blanks]

theorem scanFrom_close (closes : close? state = some found)
    (comma : step? state ',' = some (.idle, found ++ [.comma]))
    (line : step? state '\n' = some (.idle, found)) (apart : Apart rest) :
    scanFrom ⟨state, done⟩ rest = scanFrom ⟨.idle, found.reverse ++ done⟩ rest := by
  cases rest with
  | nil =>
    have idle : close? .idle = some [] := rfl
    simp [scanFrom, closes, idle]
  | cons c rest =>
    rcases apart with rfl | rfl
    · have here : Progress.step? ⟨state, done⟩ ',' = some ⟨.idle, .comma :: (found.reverse ++ done)⟩ := by
        simp [Progress.step?, comma]
      rw [scanFrom_cons here, scanFrom_mark rfl]
    · have here : Progress.step? ⟨state, done⟩ '\n' = some ⟨.idle, found.reverse ++ done⟩ := by
        simp [Progress.step?, line]
      rw [scanFrom_cons here, scanFrom_blank rfl]

theorem scans_word {word : String}
    (steps : ∀ done, word.toList.foldlM Progress.step? ⟨.idle, done⟩ = some ⟨.word word.toList.reverse, done⟩)
    (known : ofWord? word = some t) : Scans word.toList [t] := by
  intro done rest apart
  have closes : close? (.word word.toList.reverse) = some [t] := by
    simp [close?, known]
  rw [scanFrom_append (steps done)]
  refine scanFrom_close closes ?_ ?_ apart
  · have low : ','.isLower = false := rfl
    simp [step?, low, closes, begin?]
  · have low : '\n'.isLower = false := rfl
    simp [step?, low, closes, begin?, isBlank]

section Numbers

variable {digits : List Char}

theorem foldlM_digits (all : ∀ c ∈ digits, c.isDigit = true) (read : List Char) :
    digits.foldlM Progress.step? ⟨.number .whole read, done⟩ =
      some ⟨.number .whole (digits.reverse ++ read), done⟩ := by
  induction digits generalizing read with
  | nil => rfl
  | cons c rest ih =>
    have digit : c.isDigit = true := all c List.mem_cons_self
    have step : Progress.step? ⟨.number .whole read, done⟩ c = some ⟨.number .whole (c :: read), done⟩ := by
      simp [Progress.step?, step?, NumberPart.next?, digit]
    rw [List.foldlM_cons, step, Option.bind_eq_bind, Option.bind_some,
      ih fun d member => all d (List.mem_cons_of_mem _ member)]
    simp

theorem head_toDigits {n : Nat} (positive : 0 < n) :
    ∃ c rest, Nat.toDigits 10 n = c :: rest ∧ c ≠ '0' := by
  induction n using Nat.strongRecOn with
  | ind n ih =>
    rcases Nat.lt_or_ge n 10 with small | large
    · refine ⟨n.digitChar, [], Nat.toDigits_of_lt_base small, ?_⟩
      have each : ∀ d, d < 10 → 0 < d → d.digitChar ≠ '0' := by decide
      exact each n small positive
    · obtain ⟨c, rest, front, nonzero⟩ := ih (n / 10) (by omega) (by omega)
      refine ⟨c, rest ++ [(n % 10).digitChar], ?_, nonzero⟩
      rw [Nat.toDigits_of_base_le (by decide) large, front]
      rfl

theorem digitsValue_toDigits (n : Nat) : digitsValue (Nat.toDigits 10 n) = n := by
  have fold := Nat.ofDigitChars_ten_toDigits (n := n)
  rwa [Nat.ofDigitChars_eq_foldl] at fold

theorem begin?_digit (digit : c.isDigit = true) (nonzero : c ≠ '0') :
    begin? c = some (.number .whole [c], []) := by
  have blank : isBlank c = false := by
    rw [Bool.eq_false_iff]
    intro blank
    simp only [isBlank, Bool.or_eq_true, decide_eq_true_eq] at blank
    rcases blank with ((rfl | rfl) | rfl) | rfl <;> cases digit
  unfold begin?
  split
  case h_10 => simp [blank, digit]
  case h_9 => exact absurd rfl nonzero
  all_goals cases digit

theorem scanFrom_whole {read : List Char} (apart : Apart rest) :
    scanFrom ⟨.number .whole read, done⟩ rest =
      scanFrom ⟨.idle, ofNumber .whole read.reverse :: done⟩ rest := by
  have closes : close? (.number .whole read) = some [ofNumber .whole read.reverse] := rfl
  exact scanFrom_close closes rfl rfl apart

-- Behind its first digit, which is no zero, a number is whole.
theorem scanFrom_digits {p : Progress} {read : List Char} {n : Nat} (positive : 0 < n)
    (first : ∀ c : Char, c.isDigit = true → c ≠ '0' →
      p.step? c = some ⟨.number .whole (c :: read), done⟩) (apart : Apart rest) :
    scanFrom p (Nat.toDigits 10 n ++ rest) =
      scanFrom ⟨.idle, ofNumber .whole (read.reverse ++ Nat.toDigits 10 n) :: done⟩ rest := by
  obtain ⟨c, more, digits, nonzero⟩ := head_toDigits positive
  have all : ∀ d ∈ c :: more, d.isDigit = true := fun d member =>
    Nat.isDigit_of_mem_toDigits (by decide) (by decide) (digits ▸ member)
  rw [digits, List.cons_append, scanFrom_cons (first c (all c List.mem_cons_self) nonzero),
    scanFrom_append (foldlM_digits (fun d member => all d (List.mem_cons_of_mem _ member)) _),
    scanFrom_whole apart]
  simp

theorem ofNumber_toDigits (n : Nat) : ofNumber .whole (Nat.toDigits 10 n) = .int n := by
  have minus : ∀ digits, Nat.toDigits 10 n ≠ '-' :: digits := by
    intro digits same
    have digit : '-'.isDigit = true :=
      Nat.isDigit_of_mem_toDigits (by decide) (by decide) (same ▸ List.mem_cons_self)
    cases digit
  unfold ofNumber
  split
  case h_4 => rw [digitsValue_toDigits]
  all_goals simp_all

theorem scans_nat {n : Nat} (positive : 0 < n) : Scans (Nat.toDigits 10 n) [.int n] := by
  intro done rest apart
  have first : ∀ c : Char, c.isDigit = true → c ≠ '0' →
      Progress.step? ⟨.idle, done⟩ c = some ⟨.number .whole [c], done⟩ := by
    intro c digit nonzero
    simp [Progress.step?, step?, close?, begin?_digit digit nonzero]
  rw [scanFrom_digits positive first apart, List.reverse_nil, List.nil_append, ofNumber_toDigits]
  rfl

theorem scans_negative {n : Nat} (positive : 0 < n) : Scans ('-' :: Nat.toDigits 10 n) [.int (-n)] := by
  intro done rest apart
  have sign : Progress.step? ⟨.idle, done⟩ '-' = some ⟨.number .sign ['-'], done⟩ := rfl
  have first : ∀ c : Char, c.isDigit = true → c ≠ '0' →
      Progress.step? ⟨.number .sign ['-'], done⟩ c = some ⟨.number .whole [c, '-'], done⟩ := by
    intro c digit nonzero
    simp [Progress.step?, step?, NumberPart.next?, digit, nonzero]
  have value : ofNumber .whole ('-' :: Nat.toDigits 10 n) = .int (-n) := by
    rw [ofNumber, digitsValue_toDigits]
  rw [List.cons_append, scanFrom_cons sign, scanFrom_digits positive first apart]
  exact congrArg (fun t => scanFrom ⟨.idle, t :: done⟩ rest) value

theorem scans_int (n : Int) : Scans (toString n).toList [.int n] := by
  rw [Int.toString_eq_repr, Int.repr_eq_if]
  rcases Int.lt_trichotomy n 0 with negative | rfl | positive
  · have text : ("-" ++ (-n).toNat.repr).toList = '-' :: Nat.toDigits 10 (-n).toNat := by
      rw [String.toList_append, Nat.toList_repr]
      rfl
    have value : -((-n).toNat : Int) = n := by omega
    have scans := scans_negative (n := (-n).toNat) (by omega)
    rw [value] at scans
    rwa [if_neg (Int.not_le.mpr negative), text]
  · intro done rest apart
    show scanFrom ⟨.number .zero ['0'], done⟩ rest = _
    have closes : close? (.number .zero ['0']) = some [.int 0] := rfl
    exact scanFrom_close closes rfl rfl apart
  · have value : (n.toNat : Int) = n := by omega
    have scans := scans_nat (n := n.toNat) (by omega)
    rw [value] at scans
    rwa [if_pos (Int.le_of_lt positive), Nat.toList_repr]

end Numbers

section Strings

variable {read : List Char}

theorem hexValue?_hexDigit : ∀ d, d < 16 → hexValue? (Text.hexDigit d) = some d := by decide

theorem foldlM_hexDigits {n : Nat} (small : n < 0x10000) (text : Text) :
    (Text.hexDigits 4 n).foldlM Progress.step? ⟨.unicode text 4 0, done⟩ =
      some ⟨.string (text.pushUnit n), done⟩ := by
  have d₁ := hexValue?_hexDigit (n / 16 / 16 / 16 % 16) (Nat.mod_lt _ (by decide))
  have d₂ := hexValue?_hexDigit (n / 16 / 16 % 16) (Nat.mod_lt _ (by decide))
  have d₃ := hexValue?_hexDigit (n / 16 % 16) (Nat.mod_lt _ (by decide))
  have d₄ := hexValue?_hexDigit (n % 16) (Nat.mod_lt _ (by decide))
  have value : ((n / 16 / 16 / 16 % 16 * 16 + n / 16 / 16 % 16) * 16 + n / 16 % 16) * 16 + n % 16 = n := by
    omega
  simp [Text.hexDigits, Progress.step?, step?, d₁, d₂, d₃, d₄, value]

theorem pushUnit_toNat (low : c.toNat < 0xd800) (read : List Char) :
    Text.pushUnit { read := read } c.toNat = { read := c :: read } := by
  have noHigh : isHighSurrogate c.toNat = false := by
    simp [isHighSurrogate]
    omega
  have noLow : isLowSurrogate c.toNat = false := by
    simp [isLowSurrogate]
    omega
  simp [Text.pushUnit, ofUnit, noHigh, noLow]

theorem foldlM_unicode (low : c.toNat < 0xd800) (read : List Char) :
    ('\\' :: 'u' :: Text.hexDigits 4 c.toNat).foldlM Progress.step? ⟨.string { read := read }, done⟩ =
      some ⟨.string { read := c :: read }, done⟩ := by
  have slash : Progress.step? ⟨.string { read := read }, done⟩ '\\' =
      some ⟨.escape { read := read }, done⟩ := rfl
  have letter : Progress.step? ⟨.escape { read := read }, done⟩ 'u' =
      some ⟨.unicode { read := read } 4 0, done⟩ := rfl
  rw [List.foldlM_cons, slash, Option.bind_eq_bind, Option.bind_some, List.foldlM_cons, letter,
    Option.bind_eq_bind, Option.bind_some, foldlM_hexDigits (by omega), pushUnit_toNat low]

theorem foldlM_escapedChar (c : Char) (read : List Char) :
    (escapedChar c).foldlM Progress.step? ⟨.string { read := read }, done⟩ =
      some ⟨.string { read := c :: read }, done⟩ := by
  unfold escapedChar
  split
  case h_6 quote backslash _ _ _ =>
    split
    · rename_i special
      refine foldlM_unicode ?_ read
      simp only [Bool.or_eq_true, decide_eq_true_eq] at special
      rcases special with ((((low | rfl) | rfl) | rfl) | line) | paragraph
      · omega
      · decide
      · decide
      · decide
      · omega
      · omega
    · rename_i ordinary
      simp only [Bool.or_eq_true, decide_eq_true_eq, not_or] at ordinary
      have noQuote : c ≠ '"' := quote
      have noBackslash : c ≠ '\\' := backslash
      have step : Progress.step? ⟨.string { read := read }, done⟩ c =
          some ⟨.string { read := c :: read }, done⟩ := by
        simp [Progress.step?, step?, noQuote, noBackslash, ordinary, Text.push, Text.settle]
      rw [List.foldlM_cons, step]
      rfl
  all_goals rfl

theorem foldlM_escaped (chars read : List Char) :
    (chars.flatMap escapedChar).foldlM Progress.step? ⟨.string { read := read }, done⟩ =
      some ⟨.string { read := chars.reverse ++ read }, done⟩ := by
  induction chars generalizing read with
  | nil => rfl
  | cons c rest ih =>
    rw [List.flatMap_cons, List.foldlM_append, foldlM_escapedChar, Option.bind_eq_bind, Option.bind_some, ih]
    simp

theorem scanFrom_writeString (s : String) (rest : List Char) :
    scanFrom ⟨.idle, done⟩ ((writeString s).toList ++ rest) = scanFrom ⟨.idle, .str s :: done⟩ rest := by
  have left : Progress.step? ⟨.idle, done⟩ '"' = some ⟨.string { }, done⟩ := rfl
  have right : Progress.step? ⟨.string { read := s.toList.reverse }, done⟩ '"' =
      some ⟨.idle, .str s :: done⟩ := by
    simp [Progress.step?, step?, Text.value, Text.settle]
  have quoted : (writeString s).toList = '"' :: (s.toList.flatMap escapedChar ++ ['"']) := by
    simp [writeString]
  have body : (s.toList.flatMap escapedChar).foldlM Progress.step? ⟨.string { }, done⟩ =
      some ⟨.string { read := s.toList.reverse }, done⟩ := by
    rw [foldlM_escaped, List.append_nil]
  rw [quoted, List.cons_append, scanFrom_cons left, List.append_assoc, scanFrom_append body]
  exact scanFrom_cons right rest

end Strings

section Containers

variable {texts : List (List Char)} {words : List (List Token)}

theorem apart_more (texts : List (List Char)) (apart : Apart rest) :
    Apart (texts.flatMap (',' :: ·) ++ rest) := by
  cases texts with
  | nil => exact apart
  | cons text more => exact .inl rfl

theorem scans_more (each : List.Forall₂ Scans texts words) :
    Scans (texts.flatMap (',' :: ·)) (words.flatMap (Token.comma :: ·)) := by
  induction each with
  | nil => exact fun done rest apart => rfl
  | @cons text found texts words first others ih =>
    intro done rest apart
    rw [List.flatMap_cons, List.cons_append, List.cons_append, scanFrom_mark rfl, List.append_assoc,
      first _ _ (apart_more texts apart), ih _ _ apart]
    simp

theorem scans_members (each : List.Forall₂ Scans texts words) :
    Scans ([','].intercalate texts) ([Token.comma].intercalate words) := by
  cases each with
  | nil => exact fun done rest apart => rfl
  | @cons text found texts words first others =>
    intro done rest apart
    rw [intercalate_cons, intercalate_cons, List.append_assoc, first _ _ (apart_more texts apart),
      scans_more others _ _ apart]
    simp

theorem scans_bracketed {left right : String} {l r : Char} {opening closing : Token} (depth : Nat)
    {members : List String} (each : List.Forall₂ (fun text found => Scans text.toList found) members words)
    (leftChar : left.toList = [l]) (rightChar : right.toList = [r])
    (opens : begin? l = some (.idle, [opening])) (closes : begin? r = some (.idle, [closing])) :
    Scans (bracketed depth left right members).toList
      (opening :: ([Token.comma].intercalate words ++ [closing])) := by
  intro done rest apart
  cases members with
  | nil =>
    cases each
    simp only [bracketed, String.toList_append, leftChar, rightChar, List.cons_append, List.nil_append]
    rw [scanFrom_mark opens, scanFrom_mark closes]
    simp
  | cons first others =>
    have lines : List.Forall₂ Scans
        (((first :: others).map (newline (depth + 1) ++ ·)).map String.toList) words := by
      rw [List.map_map, List.forall₂_map_left_iff]
      refine each.imp fun text found scans done rest apart => ?_
      rw [Function.comp_apply, String.toList_append, List.append_assoc, scanFrom_newline]
      exact scans done rest apart
    have comma : ",".toList = [','] := rfl
    have line : Apart ((newline depth).toList ++ (r :: rest)) := by
      rw [toList_newline]
      exact .inr rfl
    simp only [bracketed, String.toList_append, leftChar, rightChar, String.toList_intercalate, comma,
      List.cons_append, List.nil_append, List.append_assoc]
    rw [scanFrom_mark opens, scans_members lines _ _ line, scanFrom_newline, scanFrom_mark closes]
    simp

end Containers

end Token

open Token

theorem scans_render {v : Json} (plain : Plain v) (depth : Nat) : Scans (v.render depth).toList v.tokens := by
  induction plain generalizing depth with
  | null =>
    rw [render, tokens]
    exact scans_word (fun _ => rfl) rfl
  | bool value =>
    cases value with
    | true =>
      rw [render, tokens]
      exact scans_word (fun _ => rfl) rfl
    | false =>
      rw [render, tokens]
      exact scans_word (fun _ => rfl) rfl
  | int value => exact scans_int value
  | str value => exact fun done rest _ => scanFrom_writeString value rest
  | @arr items all ih =>
    have each : List.Forall₂ (fun text found => Scans text.toList found) (renderItems (depth + 1) items)
        (itemTokens items) := by
      clear all
      induction items with
      | nil => exact .nil
      | cons item rest more =>
        exact .cons (ih item List.mem_cons_self _)
          (more fun v member => ih v (List.mem_cons_of_mem _ member))
    exact scans_bracketed depth each rfl rfl rfl rfl
  | @obj fields all ih =>
    have each : List.Forall₂ (fun text found => Scans text.toList found) (renderFields (depth + 1) fields)
        (fieldTokens fields) := by
      clear all
      induction fields with
      | nil => exact .nil
      | cons field rest more =>
        obtain ⟨key, value⟩ := field
        refine .cons (fun done rest apart => ?_) (more fun v member => ih v (List.mem_cons_of_mem _ member))
        have colon : ": ".toList = [':', ' '] := rfl
        rw [String.toList_append, String.toList_append, colon, List.append_assoc, List.append_assoc,
          scanFrom_writeString, List.cons_append, scanFrom_mark rfl, List.cons_append, scanFrom_blank rfl,
          List.nil_append, ih (key, value) List.mem_cons_self _ _ _ apart]
        simp
    exact scans_bracketed depth each rfl rfl rfl rfl

theorem scan?_text {v : Json} (plain : Plain v) : scan? v.text.toList = some v.tokens := by
  have scans := scans_render plain 0 [] [] trivial
  rw [List.append_nil, List.append_nil] at scans
  refine Eq.trans scans ?_
  simp [scanFrom, close?]

namespace Reader

-- Where a value may stand, its tokens supply it to what is open.
def Reads (v : Json) : Prop :=
  ∀ expect stack rest, expect = Expect.value ∨ expect = Expect.valueOrClose →
    (v.tokens ++ rest).foldlM step ⟨expect, stack⟩ = (supply v stack).bind fun s => rest.foldlM step s

theorem step_openValue {t : Token} {expect : Expect} (ahead : expect = .value ∨ expect = .valueOrClose)
    (other : t ≠ .closeArr) (stack : List Frame) : step ⟨expect, stack⟩ t = openValue t stack := by
  rcases ahead with rfl | rfl
  · rfl
  · cases t with
    | closeArr => exact absurd rfl other
    | _ => rfl

variable {stack : List Frame} {rest : List Token}

theorem reads_token {v : Json} {t : Token} (single : v.tokens = [t])
    (opens : ∀ stack, openValue t stack = supply v stack) (other : t ≠ .closeArr) : Reads v := by
  intro expect stack rest ahead
  rw [single, List.singleton_append, List.foldlM_cons, step_openValue ahead other, opens]
  rfl

theorem reads_more_items {items : List Json} (each : ∀ v ∈ items, Reads v) (read : List Json) :
    ((itemTokens items).flatMap (Token.comma :: ·) ++ rest).foldlM step ⟨.commaOrClose, .arr read :: stack⟩ =
      rest.foldlM step ⟨.commaOrClose, .arr (items.reverse ++ read) :: stack⟩ := by
  induction items generalizing read with
  | nil => rfl
  | cons item more ih =>
    have comma : step ⟨.commaOrClose, .arr read :: stack⟩ .comma = some ⟨.value, .arr read :: stack⟩ := rfl
    rw [itemTokens, List.flatMap_cons, List.cons_append, List.cons_append, List.foldlM_cons, comma,
      Option.bind_eq_bind, Option.bind_some, List.append_assoc,
      each item List.mem_cons_self _ _ _ (.inl rfl), supply, Option.bind_some,
      ih fun v member => each v (List.mem_cons_of_mem _ member)]
    simp

theorem reads_more_fields {fields : List (String × Json)} (each : ∀ field ∈ fields, Reads field.2)
    (read : List (String × Json)) :
    ((fieldTokens fields).flatMap (Token.comma :: ·) ++ rest).foldlM step
        ⟨.commaOrClose, .obj read :: stack⟩ =
      rest.foldlM step ⟨.commaOrClose, .obj (fields.reverse ++ read) :: stack⟩ := by
  induction fields generalizing read with
  | nil => rfl
  | cons field more ih =>
    obtain ⟨key, value⟩ := field
    have keyed : ∀ tail : List Token, (Token.comma :: .str key :: .colon :: tail).foldlM step
        ⟨.commaOrClose, .obj read :: stack⟩ = tail.foldlM step ⟨.value, .field read key :: stack⟩ :=
      fun tail => rfl
    rw [fieldTokens, List.flatMap_cons, List.cons_append, List.cons_append, List.cons_append,
      List.cons_append, List.cons_append, List.cons_append, keyed, List.append_assoc,
      each (key, value) List.mem_cons_self _ _ _ (.inl rfl), supply, Option.bind_some,
      ih fun field member => each field (List.mem_cons_of_mem _ member)]
    simp

theorem reads_arr {items : List Json} (each : ∀ v ∈ items, Reads v) : Reads (.arr items) := by
  intro expect stack rest ahead
  have closed : ∀ read, (Token.closeArr :: rest).foldlM step ⟨.commaOrClose, .arr read :: stack⟩ =
      (supply (.arr read.reverse) stack).bind fun s => rest.foldlM step s := fun read => rfl
  rw [tokens, List.cons_append, List.foldlM_cons, step_openValue ahead (by simp), openValue,
    Option.bind_eq_bind, Option.bind_some]
  cases items with
  | nil => rfl
  | cons item more =>
    rw [itemTokens, intercalate_cons, List.append_assoc, List.append_assoc,
      each item List.mem_cons_self _ _ _ (.inr rfl), supply, Option.bind_some,
      reads_more_items fun v member => each v (List.mem_cons_of_mem _ member)]
    rw [List.singleton_append, closed]
    simp

theorem reads_obj {fields : List (String × Json)} (each : ∀ field ∈ fields, Reads field.2) :
    Reads (.obj fields) := by
  intro expect stack rest ahead
  have closed : ∀ read, (Token.closeObj :: rest).foldlM step ⟨.commaOrClose, .obj read :: stack⟩ =
      (supply (.obj read.reverse) stack).bind fun s => rest.foldlM step s := fun read => rfl
  rw [tokens, List.cons_append, List.foldlM_cons, step_openValue ahead (by simp), openValue,
    Option.bind_eq_bind, Option.bind_some]
  cases fields with
  | nil => rfl
  | cons field more =>
    obtain ⟨key, value⟩ := field
    have keyed : ∀ tail : List Token, (Token.str key :: .colon :: tail).foldlM step
        ⟨.keyOrClose, .obj [] :: stack⟩ = tail.foldlM step ⟨.value, .field [] key :: stack⟩ :=
      fun tail => rfl
    rw [fieldTokens, intercalate_cons, List.cons_append, List.cons_append, List.cons_append,
      List.cons_append, List.cons_append, List.cons_append, keyed, List.append_assoc, List.append_assoc,
      each (key, value) List.mem_cons_self _ _ _ (.inl rfl), supply, Option.bind_some,
      reads_more_fields fun field member => each field (List.mem_cons_of_mem _ member)]
    rw [List.singleton_append, closed]
    simp

theorem reads_plain {v : Json} (plain : Plain v) : Reads v := by
  induction plain with
  | null => exact reads_token (by rw [tokens]) (fun _ => rfl) (by simp)
  | bool value => exact reads_token (by rw [tokens]) (fun _ => rfl) (by simp)
  | int value => exact reads_token (by rw [tokens]) (fun _ => rfl) (by simp)
  | str value => exact reads_token (by rw [tokens]) (fun _ => rfl) (by simp)
  | arr all ih => exact reads_arr ih
  | obj all ih => exact reads_obj ih

end Reader

theorem parse?_text {v : Json} (plain : Plain v) : parse? v.text = some v := by
  have reads := Reader.reads_plain plain .value [] [] (.inl rfl)
  rw [List.append_nil] at reads
  rw [parse?, scan?_text plain, Option.bind_some, ofTokens?, reads]
  rfl

end RegisterAllocation.Json
