import Abbey.Lib.Text
import Mathlib.Tactic.IntervalCases

/-!
# JSON values

A JSON value as a tree, with the reads that a dynamic value offers and the
compact text of a value.  An object is the list of its fields in the order
of their keys, so that two objects are equal when they have the same
fields.
-/

namespace Abbey.Lib

open List

/-- A number that is an unsigned integer, or the text of any other. -/
inductive Number where
  | posInt (n : Nat)
  | other (text : String)
  deriving DecidableEq

inductive Value where
  | null
  | bool (b : Bool)
  | number (n : Number)
  | string (s : String)
  | array (items : List Value)
  | object (fields : List (String × Value))

namespace Value

/-! ## Equality -/

mutual

def decEq : (a b : Value) → Decidable (a = b)
  | .null, .null => .isTrue rfl
  | .bool a, .bool b => decidable_of_iff (a = b) (by simp)
  | .number a, .number b => decidable_of_iff (a = b) (by simp)
  | .string a, .string b => decidable_of_iff (a = b) (by simp)
  | .array a, .array b => match decEqItems a b with
    | .isTrue h => .isTrue (by rw [h])
    | .isFalse h => .isFalse (fun heq => h (Value.array.inj heq))
  | .object a, .object b => match decEqFields a b with
    | .isTrue h => .isTrue (by rw [h])
    | .isFalse h => .isFalse (fun heq => h (Value.object.inj heq))
  | .null, .bool _ | .null, .number _ | .null, .string _ | .null, .array _ | .null, .object _
  | .bool _, .null | .bool _, .number _ | .bool _, .string _ | .bool _, .array _
  | .bool _, .object _ | .number _, .null | .number _, .bool _ | .number _, .string _
  | .number _, .array _ | .number _, .object _ | .string _, .null | .string _, .bool _
  | .string _, .number _ | .string _, .array _ | .string _, .object _ | .array _, .null
  | .array _, .bool _ | .array _, .number _ | .array _, .string _ | .array _, .object _
  | .object _, .null | .object _, .bool _ | .object _, .number _ | .object _, .string _
  | .object _, .array _ => .isFalse (by simp)

def decEqItems : (a b : List Value) → Decidable (a = b)
  | [], [] => .isTrue rfl
  | [], _ :: _ => .isFalse (by simp)
  | _ :: _, [] => .isFalse (by simp)
  | x :: xs, y :: ys => match decEq x y, decEqItems xs ys with
    | .isTrue h, .isTrue hs => .isTrue (by rw [h, hs])
    | .isFalse h, _ => .isFalse (fun heq => h (List.cons.inj heq).1)
    | _, .isFalse hs => .isFalse (fun heq => hs (List.cons.inj heq).2)

def decEqFields : (a b : List (String × Value)) → Decidable (a = b)
  | [], [] => .isTrue rfl
  | [], _ :: _ => .isFalse (by simp)
  | _ :: _, [] => .isFalse (by simp)
  | (k, x) :: xs, (l, y) :: ys => match decEq x y, decEqFields xs ys with
    | .isTrue h, .isTrue hs => decidable_of_iff (k = l) (by simp [h, hs])
    | .isFalse h, _ => .isFalse (fun heq => h (Prod.mk.inj (List.cons.inj heq).1).2)
    | _, .isFalse hs => .isFalse (fun heq => hs (List.cons.inj heq).2)

end

instance : DecidableEq Value := decEq

/-! ## Reads -/

def asObject : Value → Option (List (String × Value))
  | .object fields => some fields
  | _ => none

def asBool : Value → Option Bool
  | .bool b => some b
  | _ => none

def asStr : Value → Option String
  | .string s => some s
  | _ => none

def asU64 : Value → Option Nat
  | .number (.posInt n) => some n
  | _ => none

/-- A field of an object; `null` where there is none. -/
def index (v : Value) (key : String) : Value :=
  match v with
  | .object fields => (fields.lookup key).getD .null
  | _ => .null

/-! ## Text -/

def hexDigit (n : Nat) : Char := Char.ofNat (if n < 10 then 48 + n else 87 + n)

/-- A control character of a string in its JSON text. -/
def escapeControl (c : Char) : List Char :=
  if c = '\n' then ['\\', 'n']
  else if c = '\r' then ['\\', 'r']
  else if c = '\t' then ['\\', 't']
  else if c = '\x08' then ['\\', 'b']
  else if c = '\x0c' then ['\\', 'f']
  else ['\\', 'u', '0', '0', hexDigit (c.toNat / 16), hexDigit (c.toNat % 16)]

/-- One character of a string in its JSON text. -/
def escape (c : Char) : List Char :=
  if c.toNat < 0x20 then escapeControl c
  else if c = '"' then ['\\', '"']
  else if c = '\\' then ['\\', '\\']
  else [c]

def printString (s : String) : List Char := '"' :: s.toList.flatMap escape ++ ['"']

def printNumber : Number → List Char
  | .posInt n => (toString n).toList
  | .other text => text.toList

mutual

/-- The compact text. -/
def print : Value → List Char
  | .null => "null".toList
  | .bool true => "true".toList
  | .bool false => "false".toList
  | .number n => printNumber n
  | .string s => printString s
  | .array items => '[' :: printItems items ++ [']']
  | .object fields => '{' :: printFields fields ++ ['}']

def printItems : List Value → List Char
  | [] => []
  | [v] => print v
  | v :: vs => print v ++ ',' :: printItems vs

def printFields : List (String × Value) → List Char
  | [] => []
  | [(key, v)] => printString key ++ ':' :: print v
  | (key, v) :: fields => printString key ++ ':' :: print v ++ ',' :: printFields fields

end

example : (Value.object [("a", .array [.number (.posInt 7), .null]), ("b", .string "x\n")]).print =
    "\x7b\"a\":[7,null],\"b\":\"x\\n\"\x7d".toList := by
  decide

theorem newline_notMem_escape (c : Char) : '\n' ∉ escape c := by
  unfold escape
  split_ifs with hcontrol hquote hslash
  · have hall : ∀ n : Fin 32, '\n' ∉ escapeControl (Char.ofNat n.val) := by decide
    have hc := hall ⟨c.toNat, hcontrol⟩
    rwa [Char.ofNat_toNat] at hc
  · decide
  · decide
  · rw [mem_singleton]
    rintro rfl
    exact hcontrol (by decide)

/-- A string of a value is one line. -/
theorem newline_notMem_printString (s : String) : '\n' ∉ printString s := by
  unfold printString
  simp only [cons_append, mem_cons, mem_append, mem_flatMap, not_mem_nil, or_false]
  rintro (h | ⟨c, _, hc⟩ | h)
  · revert h
    decide
  · exact newline_notMem_escape c hc
  · revert h
    decide

/-- The text of a string has at most six bytes for one. -/
theorem bytes_printString_le (s : String) : bytes (printString s) ≤ 6 * s.utf8ByteSize + 2 := by
  have hescape : ∀ c : Char, bytes (escape c) ≤ 6 * c.utf8Size := by
    intro c
    have hpos := c.utf8Size_pos
    unfold escape
    split_ifs with hcontrol
    · have hall : ∀ n : Fin 32, bytes (escapeControl (Char.ofNat n.val)) ≤ 6 := by decide
      have hc := hall ⟨c.toNat, hcontrol⟩
      rw [Char.ofNat_toNat] at hc
      omega
    · have htwo : bytes ['\\', '"'] = 2 := by decide
      omega
    · have htwo : bytes ['\\', '\\'] = 2 := by decide
      omega
    · rw [bytes_cons, bytes_nil]
      omega
  have hflat : ∀ cs : List Char, bytes (cs.flatMap escape) ≤ 6 * bytes cs := by
    intro cs
    induction cs with
    | nil => simp
    | cons c cs ih =>
      have hc := hescape c
      rw [flatMap_cons, bytes_append, bytes_cons]
      omega
  have hs := hflat s.toList
  have hquote : '"'.utf8Size = 1 := rfl
  rw [utf8ByteSize_eq, printString, cons_append, bytes_cons, bytes_append, bytes_cons, bytes_nil,
    hquote]
  omega

/-! ## The size of a text -/

mutual

/-- A bound of the bytes of the compact text. -/
def weight : Value → Nat
  | .null => 4
  | .bool _ => 5
  | .number n => bytes (printNumber n)
  | .string s => 6 * s.utf8ByteSize + 2
  | .array items => weightItems items + 2
  | .object fields => weightFields fields + 2

def weightItems : List Value → Nat
  | [] => 0
  | v :: vs => weight v + weightItems vs + 1

def weightFields : List (String × Value) → Nat
  | [] => 0
  | (key, v) :: fields => 6 * key.utf8ByteSize + weight v + weightFields fields + 4

end

mutual

theorem bytes_print_le : (v : Value) → bytes v.print ≤ v.weight
  | .null => by decide
  | .bool b => by cases b <;> decide
  | .number n => by rw [print, weight]
  | .string s => bytes_printString_le s
  | .array items => by
    have hitems := bytes_printItems_le items
    have hmarks : '['.utf8Size = 1 ∧ ']'.utf8Size = 1 := by decide
    rw [print, weight, cons_append, bytes_cons, bytes_append, bytes_cons, bytes_nil, hmarks.1,
      hmarks.2]
    omega
  | .object fields => by
    have hfields := bytes_printFields_le fields
    have hmarks : '\x7b'.utf8Size = 1 ∧ '\x7d'.utf8Size = 1 := by decide
    rw [print, weight, cons_append, bytes_cons, bytes_append, bytes_cons, bytes_nil, hmarks.1,
      hmarks.2]
    omega

theorem bytes_printItems_le : (vs : List Value) → bytes (printItems vs) ≤ weightItems vs
  | [] => Nat.le_refl 0
  | [v] => by
    have hv := bytes_print_le v
    rw [printItems, weightItems]
    omega
  | v :: w :: vs => by
    have hv := bytes_print_le v
    have hrest := bytes_printItems_le (w :: vs)
    have hcomma : ','.utf8Size = 1 := rfl
    rw [printItems.eq_3 _ _ (by simp), weightItems, bytes_append, bytes_cons, hcomma]
    omega

theorem bytes_printFields_le : (fields : List (String × Value)) →
    bytes (printFields fields) ≤ weightFields fields
  | [] => Nat.le_refl 0
  | [(key, v)] => by
    have hkey := bytes_printString_le key
    have hv := bytes_print_le v
    have hcolon : ':'.utf8Size = 1 := rfl
    rw [printFields, weightFields, bytes_append, bytes_cons, hcolon]
    omega
  | (key, v) :: w :: fields => by
    have hkey := bytes_printString_le key
    have hv := bytes_print_le v
    have hrest := bytes_printFields_le (w :: fields)
    have hmarks : ':'.utf8Size = 1 ∧ ','.utf8Size = 1 := by decide
    rw [printFields.eq_3 _ _ _ (by simp), weightFields]
    simp only [append_assoc, cons_append, bytes_append, bytes_cons, hmarks]
    omega

end

/-! ## What a text was printed from -/

/-- Read one character of a string back. -/
def unescape : List Char → Option (Char × List Char)
  | '\\' :: 'n' :: rest => some ('\n', rest)
  | '\\' :: 'r' :: rest => some ('\r', rest)
  | '\\' :: 't' :: rest => some ('\t', rest)
  | '\\' :: 'b' :: rest => some ('\x08', rest)
  | '\\' :: 'f' :: rest => some ('\x0c', rest)
  | '\\' :: 'u' :: '0' :: '0' :: a :: b :: rest =>
    let value (c : Char) : Nat := if c.toNat < 58 then c.toNat - 48 else c.toNat - 87
    some (Char.ofNat (value a * 16 + value b), rest)
  | '\\' :: c :: rest => some (c, rest)
  | c :: rest => some (c, rest)
  | [] => none

theorem unescape_escape (c : Char) (rest : List Char) :
    unescape (escape c ++ rest) = some (c, rest) := by
  have hcontrols : ∀ n, n < 32 → unescape (escape (Char.ofNat n) ++ rest) =
      some (Char.ofNat n, rest) := by
    intro n hn
    interval_cases n <;> rfl
  by_cases hcontrol : c.toNat < 32
  · have hc := hcontrols c.toNat hcontrol
    rwa [Char.ofNat_toNat] at hc
  · unfold escape
    rw [if_neg hcontrol]
    split_ifs with hquote hslash
    · rw [hquote]
      rfl
    · rw [hslash]
      rfl
    · simp [unescape, hslash]

theorem head_escape_ne_quote (c : Char) (rest other : List Char) :
    escape c ++ rest ≠ '"' :: other := by
  intro h
  have hread := unescape_escape c rest
  rw [h] at hread
  have hc : '"' = c := congrArg Prod.fst (Option.some.inj hread)
  subst hc
  exact absurd (cons.inj h).1 (by decide)

variable {s t : List Char}

theorem flatMap_escape_inj {cs ds : List Char}
    (h : cs.flatMap escape ++ '"' :: s = ds.flatMap escape ++ '"' :: t) : cs = ds ∧ s = t := by
  induction cs generalizing ds with
  | nil =>
    cases ds with
    | nil => exact ⟨rfl, (cons.inj h).2⟩
    | cons d ds =>
      rw [flatMap_cons, append_assoc] at h
      exact absurd h.symm (head_escape_ne_quote d _ _)
  | cons c cs ih =>
    cases ds with
    | nil =>
      rw [flatMap_cons, append_assoc] at h
      exact absurd h (head_escape_ne_quote c _ _)
    | cons d ds =>
      rw [flatMap_cons, flatMap_cons, append_assoc, append_assoc] at h
      have hread := congrArg unescape h
      rw [unescape_escape, unescape_escape, Option.some.injEq, Prod.mk.injEq] at hread
      obtain ⟨rfl, hrest⟩ := hread
      obtain ⟨rfl, rfl⟩ := ih hrest
      exact ⟨rfl, rfl⟩

/-- The text of a string says where it ends. -/
theorem printString_append_inj (h : printString a ++ s = printString b ++ t) : a = b ∧ s = t := by
  unfold printString at h
  simp only [cons_append, append_assoc, singleton_append, cons.injEq, true_and] at h
  obtain ⟨hchars, hrest⟩ := flatMap_escape_inj h
  exact ⟨String.toList_inj.mp hchars, hrest⟩

theorem print_bool_append_inj
    (h : (Value.bool a).print ++ s = (Value.bool b).print ++ t) : a = b ∧ s = t := by
  cases a <;> cases b <;> simp_all [print]

@[simp] theorem print_string (s : String) : (Value.string s).print = printString s := by
  rw [print]

theorem newline_notMem_print_bool (b : Bool) : '\n' ∉ (Value.bool b).print := by
  cases b with
  | true | false =>
    rw [print]
    decide

/-- An object is one line when its fields are. -/
theorem newline_notMem_printFields
    (h : ∀ field ∈ fields, '\n' ∉ field.2.print) : '\n' ∉ printFields fields := by
  have hcolon : '\n' ≠ ':' := by decide
  have hcomma : '\n' ≠ ',' := by decide
  induction fields with
  | nil => simp [printFields]
  | cons field rest ih =>
    obtain ⟨key, v⟩ := field
    have hkey := newline_notMem_printString key
    have hv := h (key, v) mem_cons_self
    cases rest with
    | nil =>
      rw [printFields, mem_append, mem_cons]
      rintro (hmem | heq | hmem)
      · exact hkey hmem
      · exact hcolon heq
      · exact hv hmem
    | cons other rest =>
      have hrest := ih (fun field hfield => h field (mem_cons_of_mem _ hfield))
      rw [printFields, mem_append, mem_append, mem_cons, mem_cons]
      · rintro ((hmem | heq | hmem) | heq | hmem)
        · exact hkey hmem
        · exact hcolon heq
        · exact hv hmem
        · exact hcomma heq
        · exact hrest hmem
      · simp

end Value

end Abbey.Lib
