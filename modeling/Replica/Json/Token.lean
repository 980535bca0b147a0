import Replica.Json.Number

/-!
# The tokens of JSON text

Text is split into tokens once, from left to right. What no token begins with, or what a token
leaves unfinished, becomes the token `broken`, and nothing is read behind it. A text token whose
escapes leave half a surrogate pair, and a number token beyond the largest double, are well formed
but have no content: a reader that only skips them does not mind.

`spell` writes a token back; a compact document is the concatenation of its tokens.
-/
namespace Replica.Json

inductive Token where
  | openArray
  | closeArray
  | openObject
  | closeObject
  | comma
  | colon
  | null
  | bool (value : Bool)
  | number (value : Option Number)
  | text (content : Option String)
  | broken
  deriving DecidableEq

namespace Token

def isGap (c : Char) : Bool := c == ' ' || c == '\t' || c == '\n' || c == '\r'

/-- The digits in front, by value, and the rest. -/
def digits (cs : List Char) : List Nat × List Char :=
  ((cs.takeWhile Char.isDigit).map fun c => c.toNat - 48, cs.dropWhile Char.isDigit)

def someDigits? (cs : List Char) : Option (List Nat × List Char) :=
  match digits cs with
  | ([], _) => none
  | found => some found

/-- The digits before the point: a leading zero stands alone. -/
def whole? (cs : List Char) : Option (List Nat × List Char) :=
  (someDigits? cs).filter fun (ds, _) => !(ds.head? == some 0 && 1 < ds.length)

/-- The digits behind a point, if there is one. -/
def fraction? : List Char → Option (List Nat × List Char)
  | '.' :: rest => someDigits? rest
  | cs => some ([], cs)

def digitsValue (ds : List Nat) : Nat := ds.foldl (fun n d => n * 10 + d) 0

/-- The digits behind the mark of an exponent and its sign. -/
def signedPower? : List Char → Option (Int × List Char)
  | '-' :: rest => (someDigits? rest).map fun (ds, rest) => (-(digitsValue ds : Int), rest)
  | '+' :: rest => (someDigits? rest).map fun (ds, rest) => ((digitsValue ds : Int), rest)
  | cs => (someDigits? cs).map fun (ds, rest) => ((digitsValue ds : Int), rest)

def power? : List Char → Option (Option Int × List Char)
  | 'e' :: rest | 'E' :: rest => (signedPower? rest).map fun (p, rest) => (some p, rest)
  | cs => some (none, cs)

/-- A numeral without its sign. -/
def figures? (negative : Bool) (cs : List Char) : Option (Figures × List Char) :=
  (whole? cs).bind fun (whole, cs) =>
    (fraction? cs).bind fun (fraction, cs) =>
      (power? cs).map fun (power, cs) => (⟨negative, whole, fraction, power⟩, cs)

def hexDigit? (c : Char) : Option Nat :=
  if c.isDigit then some (c.toNat - 48)
  else if 'a' ≤ c ∧ c ≤ 'f' then some (c.toNat - 87)
  else if 'A' ≤ c ∧ c ≤ 'F' then some (c.toNat - 55)
  else none

def hexUnit? (a b c d : Char) : Option Nat :=
  (hexDigit? a).bind fun a => (hexDigit? b).bind fun b => (hexDigit? c).bind fun c =>
    (hexDigit? d).map fun d => ((a * 16 + b) * 16 + c) * 16 + d

/-- The character that a short escape stands for. -/
def shortEscape? : Char → Option Char
  | '"' => some '"'
  | '\\' => some '\\'
  | '/' => some '/'
  | 'b' => some '\x08'
  | 'f' => some '\x0c'
  | 'n' => some '\n'
  | 'r' => some '\r'
  | 't' => some '\t'
  | _ => none

/-- The code units of a text up to its closing quote, and the rest. Characters stand for their code
point; only an escape can give half of a surrogate pair. -/
def units? : List Char → Option (List Nat × List Char)
  | [] => none
  | '"' :: rest => some ([], rest)
  | '\\' :: 'u' :: a :: b :: c :: d :: rest =>
    (hexUnit? a b c d).bind fun unit => (units? rest).map fun (us, rest) => (unit :: us, rest)
  | '\\' :: e :: rest =>
    (shortEscape? e).bind fun c => (units? rest).map fun (us, rest) => (c.toNat :: us, rest)
  | c :: rest =>
    if c.toNat < 0x20 then none
    else (units? rest).map fun (us, rest) => (c.toNat :: us, rest)

/-- The characters of code units, pairs of surrogates joined; nothing if one is alone. -/
def joinUnits? : List Nat → Option (List Char)
  | [] => some []
  | [u] => if 0xd800 ≤ u ∧ u < 0xe000 then none else some [Char.ofNat u]
  | u :: v :: rest =>
    if 0xd800 ≤ u ∧ u < 0xdc00 then
      if 0xdc00 ≤ v ∧ v < 0xe000 then
        (joinUnits? rest).map (Char.ofNat (0x10000 + (u - 0xd800) * 0x400 + (v - 0xdc00)) :: ·)
      else none
    else if 0xdc00 ≤ u ∧ u < 0xe000 then none
    else (joinUnits? (v :: rest)).map (Char.ofNat u :: ·)

/-- The token that the text begins with, and the rest. -/
def lexeme? : List Char → Option (Token × List Char)
  | '[' :: rest => some (.openArray, rest)
  | ']' :: rest => some (.closeArray, rest)
  | '\x7b' :: rest => some (.openObject, rest)
  | '\x7d' :: rest => some (.closeObject, rest)
  | ',' :: rest => some (.comma, rest)
  | ':' :: rest => some (.colon, rest)
  | 'n' :: 'u' :: 'l' :: 'l' :: rest => some (.null, rest)
  | 't' :: 'r' :: 'u' :: 'e' :: rest => some (.bool true, rest)
  | 'f' :: 'a' :: 'l' :: 's' :: 'e' :: rest => some (.bool false, rest)
  | '"' :: rest =>
    (units? rest).map fun (us, rest) => (.text ((joinUnits? us).map String.ofList), rest)
  | '-' :: rest => (figures? true rest).map fun (f, rest) => (.number f.value?, rest)
  | cs => (figures? false cs).map fun (f, rest) => (.number f.value?, rest)

theorem digits_length (cs : List Char) : (digits cs).2.length ≤ cs.length := by
  simpa [digits] using (List.dropWhile_sublist Char.isDigit (l := cs)).length_le

theorem someDigits?_length {cs rest : List Char} {ds : List Nat}
    (h : someDigits? cs = some (ds, rest)) : rest.length < cs.length := by
  unfold someDigits? at h
  split at h
  · contradiction
  · rename_i hne
    have h : (digits cs).2 = rest := congrArg Prod.snd (Option.some.inj h)
    subst h
    cases cs with
    | nil => exact (hne [] rfl).elim
    | cons c cs =>
      by_cases hc : c.isDigit
      · have := digits_length cs
        simp only [digits, List.dropWhile_cons, hc, if_true, List.length_cons] at this ⊢
        omega
      · exact (hne (c :: cs) (by simp [digits, hc])).elim

theorem whole?_length {cs rest : List Char} {ds : List Nat} (h : whole? cs = some (ds, rest)) :
    rest.length < cs.length :=
  someDigits?_length (Option.filter_eq_some_iff.mp h).1

theorem fraction?_length {cs rest : List Char} {ds : List Nat}
    (h : fraction? cs = some (ds, rest)) : rest.length ≤ cs.length := by
  unfold fraction? at h
  split at h
  · exact Nat.le_succ_of_le (Nat.le_of_lt (someDigits?_length h))
  · cases h
    exact Nat.le_refl _

theorem signedPower?_length {cs rest : List Char} {p : Int}
    (h : signedPower? cs = some (p, rest)) : rest.length < cs.length := by
  unfold signedPower? at h
  split at h <;>
    (obtain ⟨⟨ds, r⟩, hd, he⟩ := Option.map_eq_some_iff.mp h
     cases he
     have := someDigits?_length hd
     try simp only [List.length_cons]
     omega)

theorem power?_length {cs rest : List Char} {p : Option Int} (h : power? cs = some (p, rest)) :
    rest.length ≤ cs.length := by
  unfold power? at h
  split at h
  · obtain ⟨⟨q, r⟩, hd, he⟩ := Option.map_eq_some_iff.mp h
    cases he
    exact Nat.le_succ_of_le (Nat.le_of_lt (signedPower?_length hd))
  · obtain ⟨⟨q, r⟩, hd, he⟩ := Option.map_eq_some_iff.mp h
    cases he
    exact Nat.le_succ_of_le (Nat.le_of_lt (signedPower?_length hd))
  · cases h
    exact Nat.le_refl _

theorem figures?_length {negative : Bool} {cs rest : List Char} {f : Figures}
    (h : figures? negative cs = some (f, rest)) : rest.length < cs.length := by
  obtain ⟨⟨w, r₁⟩, h₁, h⟩ := Option.bind_eq_some_iff.mp h
  obtain ⟨⟨d, r₂⟩, h₂, h⟩ := Option.bind_eq_some_iff.mp h
  obtain ⟨⟨p, r₃⟩, h₃, h⟩ := Option.map_eq_some_iff.mp h
  cases h
  have := whole?_length h₁
  have := fraction?_length h₂
  have := power?_length h₃
  simp only at *
  omega

theorem units?_length {cs rest : List Char} {us : List Nat} (h : units? cs = some (us, rest)) :
    rest.length < cs.length := by
  fun_induction units? cs generalizing us rest with
  | case1 => contradiction
  | case2 r =>
    cases h
    simp
  | case3 a b c d r ih =>
    obtain ⟨u, _, h⟩ := Option.bind_eq_some_iff.mp h
    obtain ⟨⟨vs, r'⟩, hr, he⟩ := Option.map_eq_some_iff.mp h
    cases he
    have := ih hr
    simp only [List.length_cons] at *
    omega
  | case4 e r _ ih =>
    obtain ⟨u, _, h⟩ := Option.bind_eq_some_iff.mp h
    obtain ⟨⟨vs, r'⟩, hr, he⟩ := Option.map_eq_some_iff.mp h
    cases he
    have := ih hr
    simp only [List.length_cons] at *
    omega
  | case5 => contradiction
  | case6 c r _ _ _ _ ih =>
    obtain ⟨⟨vs, r'⟩, hr, he⟩ := Option.map_eq_some_iff.mp h
    cases he
    have := ih hr
    simp only [List.length_cons] at *
    omega

theorem lexeme?_length {cs rest : List Char} {t : Token} (h : lexeme? cs = some (t, rest)) :
    rest.length < cs.length := by
  unfold lexeme? at h
  split at h
  case h_10 =>
    obtain ⟨⟨us, r⟩, hu, he⟩ := Option.map_eq_some_iff.mp h
    cases he
    exact Nat.lt_succ_of_lt (units?_length hu)
  case h_11 =>
    obtain ⟨⟨f, r⟩, hf, he⟩ := Option.map_eq_some_iff.mp h
    cases he
    exact Nat.lt_succ_of_lt (figures?_length hf)
  case h_12 =>
    obtain ⟨⟨f, r⟩, hf, he⟩ := Option.map_eq_some_iff.mp h
    cases he
    exact figures?_length hf
  all_goals
    cases h
    simp only [List.length_cons]
    omega

/-- The tokens of a text, up to the first place where none can be read. -/
def scan : List Char → List Token
  | [] => []
  | c :: rest =>
    if isGap c then scan rest
    else
      match _h : lexeme? (c :: rest) with
      | none => [.broken]
      | some (t, rest') => t :: scan rest'
  termination_by cs => cs.length
  decreasing_by
    · simp
    · exact lexeme?_length _h

def hexChar (n : Nat) : Char := Nat.digitChar (n % 16)

/-- The spelling of a character inside a text: quotes, backslashes and controls are escaped, the
usual controls by their short escapes. -/
def escapeChar (c : Char) : List Char :=
  match c with
  | '"' => ['\\', '"']
  | '\\' => ['\\', '\\']
  | '\x08' => ['\\', 'b']
  | '\x0c' => ['\\', 'f']
  | '\n' => ['\\', 'n']
  | '\r' => ['\\', 'r']
  | '\t' => ['\\', 't']
  | _ =>
    if c.toNat < 0x20 then ['\\', 'u', '0', '0', hexChar (c.toNat / 16), hexChar c.toNat] else [c]

def textChars (s : String) : List Char := '"' :: s.toList.flatMap escapeChar ++ ['"']

/-- The spelling of a token. Tokens without content have none. -/
def spell : Token → List Char
  | .openArray => ['[']
  | .closeArray => [']']
  | .openObject => ['\x7b']
  | .closeObject => ['\x7d']
  | .comma => [',']
  | .colon => [':']
  | .null => ['n', 'u', 'l', 'l']
  | .bool true => ['t', 'r', 'u', 'e']
  | .bool false => ['f', 'a', 'l', 's', 'e']
  | .number value => (value.map Number.toChars).getD []
  | .text content => (content.map textChars).getD []
  | .broken => []

end Token

end Replica.Json
