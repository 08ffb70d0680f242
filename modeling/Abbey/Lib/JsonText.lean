import Abbey.Lib.Json
import Mathlib.Data.List.TakeWhile

/-!
# The text of a whole value

A proper value, whose numbers are numbers of the grammar, is determined by its
text, and its text is one line.

* `print_append_inj`: a text says what value it begins with and where that ends.
* `strings`, `mapStrings`: the decoded strings of a value, keys among them.
-/

namespace Abbey.Lib

open List

variable {cs : List Char} {n : Number}

/-! ## Numbers -/

def isDigit (c : Char) : Bool := '0' ≤ c && c ≤ '9'

/-- The exponent of a number, or nothing. -/
def isExponent : List Char → Bool
  | [] => true
  | c :: cs =>
    (c = 'e' || c = 'E') &&
      match cs with
      | '+' :: digits => digits ≠ [] && digits.all isDigit
      | '-' :: digits => digits ≠ [] && digits.all isDigit
      | digits => digits ≠ [] && digits.all isDigit

/-- What follows the integer part of a number. -/
def isFraction : List Char → Bool
  | '.' :: cs => cs.takeWhile isDigit ≠ [] && isExponent (cs.dropWhile isDigit)
  | cs => isExponent cs

def isUnsigned : List Char → Bool
  | '0' :: cs => isFraction cs
  | c :: cs => isDigit c && isFraction (cs.dropWhile isDigit)
  | [] => false

/-- A number of the grammar. -/
def isNumber : List Char → Bool
  | '-' :: cs => isUnsigned cs
  | cs => isUnsigned cs

example : isNumber "-12.50e+3".toList ∧ ¬ isNumber "01".toList ∧ ¬ isNumber "1.".toList := by
  decide

/-- A number that a parser can give: its text is one, and the unsigned integers
have one form. -/
def Number.proper : Number → Bool
  | .posInt _ => true
  | .other text => isNumber text.toList && !text.toList.all isDigit

/-- The characters of numbers. -/
def inNumber (c : Char) : Bool :=
  isDigit c || c = '-' || c = '+' || c = '.' || c = 'e' || c = 'E'

theorem inNumber_of_isDigit (h : isDigit c) : inNumber c := by
  simp [inNumber, h]

theorem inNumber_of_isExponent (h : isExponent cs) : ∀ c ∈ cs, inNumber c := by
  have hdigits : ∀ digits : List Char, (digits ≠ [] && digits.all isDigit) →
      ∀ c ∈ digits, inNumber c := by
    intro digits hall c hc
    simp only [Bool.and_eq_true, all_eq_true] at hall
    exact inNumber_of_isDigit (hall.2 c hc)
  unfold isExponent at h
  split at h
  · exact nofun
  · rename_i c cs
    rw [Bool.and_eq_true] at h
    have hhead : inNumber c := by
      have hc := h.1
      simp only [Bool.or_eq_true, decide_eq_true_eq] at hc
      rcases hc with rfl | rfl <;> decide
    rw [forall_mem_cons]
    refine ⟨hhead, ?_⟩
    have htail := h.2
    split at htail
    · rw [forall_mem_cons]
      exact ⟨by decide, hdigits _ htail⟩
    · rw [forall_mem_cons]
      exact ⟨by decide, hdigits _ htail⟩
    · exact hdigits _ htail

theorem inNumber_of_dropWhile (h : ∀ c ∈ cs.dropWhile isDigit, inNumber c) :
    ∀ c ∈ cs, inNumber c := by
  intro c hc
  rw [← takeWhile_append_dropWhile (p := isDigit) (l := cs), mem_append] at hc
  rcases hc with hdigit | hrest
  · exact inNumber_of_isDigit (mem_takeWhile_imp hdigit)
  · exact h c hrest

theorem inNumber_of_isFraction (h : isFraction cs) : ∀ c ∈ cs, inNumber c := by
  unfold isFraction at h
  split at h
  · rw [Bool.and_eq_true] at h
    rw [forall_mem_cons]
    exact ⟨by decide, inNumber_of_dropWhile (inNumber_of_isExponent h.2)⟩
  · exact inNumber_of_isExponent h

theorem inNumber_of_isUnsigned (h : isUnsigned cs) : ∀ c ∈ cs, inNumber c := by
  unfold isUnsigned at h
  split at h
  · rw [forall_mem_cons]
    exact ⟨by decide, inNumber_of_isFraction h⟩
  · rw [Bool.and_eq_true] at h
    rw [forall_mem_cons]
    exact ⟨inNumber_of_isDigit h.1, inNumber_of_dropWhile (inNumber_of_isFraction h.2)⟩
  · cases h

theorem inNumber_of_isNumber (h : isNumber cs) : ∀ c ∈ cs, inNumber c := by
  unfold isNumber at h
  split at h
  · rw [forall_mem_cons]
    exact ⟨by decide, inNumber_of_isUnsigned h⟩
  · exact inNumber_of_isUnsigned h

theorem ne_nil_of_isNumber (h : isNumber cs) : cs ≠ [] := by
  rintro rfl
  cases h

theorem isDigit_toString (n : Nat) : ∀ c ∈ (toString n).toList, isDigit c := by
  intro c hc
  have hdigit := Nat.isDigit_of_mem_toDigits (by decide) (by decide) (Nat.toList_repr ▸ hc)
  simp only [Char.isDigit, Bool.and_eq_true, decide_eq_true_eq] at hdigit
  simp only [isDigit, Bool.and_eq_true, decide_eq_true_eq]
  exact hdigit

theorem inNumber_printNumber (h : n.proper) : ∀ c ∈ Value.printNumber n, inNumber c := by
  cases n with
  | posInt n => exact fun c hc => inNumber_of_isDigit (isDigit_toString n c hc)
  | other text =>
    rw [Number.proper, Bool.and_eq_true] at h
    exact inNumber_of_isNumber h.1

theorem printNumber_ne_nil (h : n.proper) : Value.printNumber n ≠ [] := by
  cases n with
  | posInt n => exact fun hnil => absurd hnil (by simp [Value.printNumber])
  | other text =>
    rw [Number.proper, Bool.and_eq_true] at h
    exact ne_nil_of_isNumber h.1

theorem toString_inj {m n : Nat} (h : (toString m).toList = (toString n).toList) : m = n := by
  have hdigits : Nat.toDigits 10 m = Nat.toDigits 10 n := by
    rw [← Nat.toList_repr, ← Nat.toList_repr]
    exact h
  have hm := @Nat.ofDigitChars_toDigits 10 m (by decide) (by decide)
  rw [hdigits, Nat.ofDigitChars_toDigits (by decide) (by decide)] at hm
  exact hm.symm

theorem printNumber_inj {m : Number} (hm : m.proper) (hn : n.proper)
    (h : Value.printNumber m = Value.printNumber n) : m = n := by
  cases m with
  | posInt m =>
    cases n with
    | posInt n => exact congrArg Number.posInt (toString_inj h)
    | other text =>
      rw [Number.proper, Bool.and_eq_true, Bool.not_eq_true', ← Bool.not_eq_true, all_eq_true] at hn
      refine absurd ?_ hn.2
      rw [show text.toList = (toString m).toList from h.symm]
      exact isDigit_toString m
  | other text =>
    cases n with
    | posInt n =>
      rw [Number.proper, Bool.and_eq_true, Bool.not_eq_true', ← Bool.not_eq_true, all_eq_true] at hm
      refine absurd ?_ hm.2
      rw [show text.toList = (toString n).toList from h]
      exact isDigit_toString n
    | other other => exact congrArg Number.other (String.toList_inj.mp h)

/-! ## Values -/

namespace Value

mutual

/-- The numbers of a value. -/
def numbers : Value → List Number
  | .number n => [n]
  | .array items => numbersItems items
  | .object fields => numbersFields fields
  | _ => []

def numbersItems : List Value → List Number
  | [] => []
  | v :: vs => numbers v ++ numbersItems vs

def numbersFields : List (String × Value) → List Number
  | [] => []
  | (_, v) :: fields => numbers v ++ numbersFields fields

end

/-- Every number of a value is one of the grammar. -/
def Proper (v : Value) : Prop := ∀ n ∈ numbers v, n.proper

variable {w v : Value} {s t : List Char}

theorem proper_of_lookup
    (h : (Value.object fields).Proper) (hkey : fields.lookup key = some w) : w.Proper := by
  induction fields with
  | nil => cases hkey
  | cons field fields ih =>
    obtain ⟨other, v⟩ := field
    have hrest : (Value.object fields).Proper := fun n hn => h n (mem_append_right _ hn)
    by_cases heq : key = other
    · rw [heq, lookup_cons_self] at hkey
      cases hkey
      exact fun n hn => h n (mem_append_left _ hn)
    · rw [lookup_cons, beq_false_of_ne heq] at hkey
      exact ih hrest hkey

/-- What the first character of a text says about its value. -/
def shape : Value → Char
  | .null => 'n'
  | .bool _ => 'b'
  | .number _ => '0'
  | .string _ => '"'
  | .array _ => '['
  | .object _ => '\x7b'

def shapeOf (c : Char) : Char :=
  if isDigit c || c = '-' then '0' else if c = 't' || c = 'f' then 'b' else c

theorem shapeOf_printNumber (h : n.proper) : ∃ c cs, printNumber n = c :: cs ∧ shapeOf c = '0' := by
  have hdigit : ∀ c, isDigit c → shapeOf c = '0' := fun c hc => if_pos (by rw [hc]; rfl)
  cases n with
  | posInt n =>
    obtain ⟨c, cs, hcs⟩ := exists_cons_of_ne_nil (printNumber_ne_nil h)
    refine ⟨c, cs, hcs, hdigit c (isDigit_toString n c ?_)⟩
    rw [show (toString n).toList = c :: cs from hcs]
    exact mem_cons_self
  | other text =>
    rw [Number.proper, Bool.and_eq_true] at h
    have hnumber := h.1
    show ∃ c cs, text.toList = c :: cs ∧ shapeOf c = '0'
    unfold isNumber at hnumber
    split at hnumber
    · rename_i cs htext
      exact ⟨'-', cs, htext, by decide⟩
    · unfold isUnsigned at hnumber
      split at hnumber
      · rename_i cs htext
        exact ⟨'0', cs, htext, by decide⟩
      · rename_i c cs _ htext
        rw [Bool.and_eq_true] at hnumber
        exact ⟨c, cs, htext, hdigit c hnumber.1⟩
      · cases hnumber

theorem exists_print (h : v.Proper) : ∃ c cs, print v = c :: cs ∧ shapeOf c = shape v := by
  cases v with
  | null => exact ⟨'n', _, by rw [print]; rfl, by decide⟩
  | bool b =>
    cases b with
    | true => exact ⟨'t', _, by rw [print]; rfl, by decide⟩
    | false => exact ⟨'f', _, by rw [print]; rfl, by decide⟩
  | number n =>
    rw [print]
    exact shapeOf_printNumber (h n mem_cons_self)
  | string s => exact ⟨'"', _, by rw [print, printString]; rfl, (by decide : shapeOf '"' = '"')⟩
  | array items => exact ⟨'[', _, by rw [print]; rfl, (by decide : shapeOf '[' = '[')⟩
  | object fields => exact ⟨'\x7b', _, by rw [print]; rfl, (by decide : shapeOf '\x7b' = '\x7b')⟩

theorem shape_eq_of_print (hv : v.Proper) (hw : w.Proper)
    (h : print v ++ s = print w ++ t) : shape v = shape w := by
  obtain ⟨c, cs, hc, hshape⟩ := exists_print hv
  obtain ⟨d, ds, hd, hshape'⟩ := exists_print hw
  rw [hc, hd] at h
  rw [← hshape, ← hshape', (cons.inj h).1]

/-- A text after a value: no number goes on there. -/
def Closes (s : List Char) : Prop := ∀ c ∈ s.head?, ¬ inNumber c

theorem printNumber_append_inj (hm : m.proper) (hn : n.proper)
    (hs : Closes s) (ht : Closes t) (h : printNumber m ++ s = printNumber n ++ t) :
    m = n ∧ s = t := by
  have hsplit : ∀ (xs ys s t : List Char), (∀ c ∈ xs, inNumber c) → (∀ c ∈ ys, inNumber c) →
      Closes s → Closes t → xs ++ s = ys ++ t → xs = ys ∧ s = t := by
    intro xs
    induction xs with
    | nil =>
      intro ys s t _ hys hs _ h
      cases ys with
      | nil => exact ⟨rfl, h⟩
      | cons y ys =>
        rw [show s = y :: (ys ++ t) from h] at hs
        exact absurd (hys y mem_cons_self) (hs y rfl)
    | cons x xs ih =>
      intro ys s t hxs hys hs ht h
      cases ys with
      | nil =>
        rw [show t = x :: (xs ++ s) from h.symm] at ht
        exact absurd (hxs x mem_cons_self) (ht x rfl)
      | cons y ys =>
        obtain ⟨rfl, htail⟩ := cons.inj h
        rw [forall_mem_cons] at hxs hys
        obtain ⟨rfl, rfl⟩ := ih ys s t hxs.2 hys.2 hs ht htail
        exact ⟨rfl, rfl⟩
  obtain ⟨hnumber, hrest⟩ := hsplit _ _ s t (inNumber_printNumber hm) (inNumber_printNumber hn)
    hs ht h
  exact ⟨printNumber_inj hm hn hnumber, hrest⟩

/-- What follows an item. -/
def afterItem (vs : List Value) (s : List Char) : List Char :=
  match vs with
  | [] => ']' :: s
  | v :: vs => ',' :: (printItems (v :: vs) ++ ']' :: s)

/-- What follows a field. -/
def afterField (fields : List (String × Value)) (s : List Char) : List Char :=
  match fields with
  | [] => '\x7d' :: s
  | field :: fields => ',' :: (printFields (field :: fields) ++ '\x7d' :: s)

theorem printItems_cons (v : Value) (vs : List Value) (s : List Char) :
    printItems (v :: vs) ++ ']' :: s = print v ++ afterItem vs s := by
  cases vs with
  | nil => rfl
  | cons w vs => simp [printItems, afterItem]

theorem printFields_cons (key : String) (v : Value) (fields : List (String × Value))
    (s : List Char) :
    printFields ((key, v) :: fields) ++ '\x7d' :: s =
      printString key ++ ':' :: (print v ++ afterField fields s) := by
  cases fields with
  | nil | cons field fields => simp [printFields, afterField]

theorem closes_afterItem (vs : List Value) (s : List Char) : Closes (afterItem vs s) := by
  cases vs with
  | nil | cons v vs =>
    rintro c ⟨⟩
    decide

theorem closes_afterField (fields : List (String × Value)) (s : List Char) :
    Closes (afterField fields s) := by
  cases fields with
  | nil | cons field fields =>
    rintro c ⟨⟩
    decide

/-- No item begins with the end of an array. -/
theorem print_ne_cons (h : v.Proper) (hc : c = ']' ∨ c = '\x7d')
    (s t : List Char) : c :: s ≠ print v ++ t := by
  intro heq
  obtain ⟨d, ds, hd, hshape⟩ := exists_print h
  rw [hd] at heq
  rw [← (cons.inj heq).1] at hshape
  have hne : shape v ≠ shapeOf ']' ∧ shape v ≠ shapeOf '\x7d' := by
    have hbracket : shapeOf ']' = ']' := by decide
    have hbrace : shapeOf '\x7d' = '\x7d' := by decide
    rw [hbracket, hbrace]
    cases v <;> simp [shape]
  rcases hc with rfl | rfl
  · exact hne.1 hshape.symm
  · exact hne.2 hshape.symm

mutual

/-- A text says what value it begins with and where that ends. -/
theorem print_append_inj : (v w : Value) → {s t : List Char} → v.Proper → w.Proper →
    Closes s → Closes t → print v ++ s = print w ++ t → v = w ∧ s = t := by
  intro v w s t hv hw hs ht h
  have hshape := shape_eq_of_print hv hw h
  match v, w with
  | .null, .null => exact ⟨rfl, append_cancel_left h⟩
  | .bool a, .bool b =>
    obtain ⟨rfl, hrest⟩ := print_bool_append_inj h
    exact ⟨rfl, hrest⟩
  | .number m, .number n =>
    rw [print, print] at h
    obtain ⟨rfl, hrest⟩ := printNumber_append_inj (hv m mem_cons_self)
      (hw n mem_cons_self) hs ht h
    exact ⟨rfl, hrest⟩
  | .string a, .string b =>
    rw [print, print] at h
    obtain ⟨rfl, hrest⟩ := printString_append_inj h
    exact ⟨rfl, hrest⟩
  | .array xs, .array ys =>
    rw [print, print] at h
    simp only [cons_append, append_assoc, nil_append, cons.injEq, true_and] at h
    obtain ⟨rfl, hrest⟩ := printItems_inj xs ys hv hw h
    exact ⟨rfl, hrest⟩
  | .object xs, .object ys =>
    rw [print, print] at h
    simp only [cons_append, append_assoc, nil_append, cons.injEq, true_and] at h
    obtain ⟨rfl, hrest⟩ := printFields_inj xs ys hv hw h
    exact ⟨rfl, hrest⟩
  | .null, .bool _ | .null, .number _ | .null, .string _ | .null, .array _ | .null, .object _
  | .bool _, .null | .bool _, .number _ | .bool _, .string _ | .bool _, .array _
  | .bool _, .object _ | .number _, .null | .number _, .bool _ | .number _, .string _
  | .number _, .array _ | .number _, .object _ | .string _, .null | .string _, .bool _
  | .string _, .number _ | .string _, .array _ | .string _, .object _ | .array _, .null
  | .array _, .bool _ | .array _, .number _ | .array _, .string _ | .array _, .object _
  | .object _, .null | .object _, .bool _ | .object _, .number _ | .object _, .string _
  | .object _, .array _ =>
    exact absurd hshape (by simp [shape])

theorem printItems_inj : (vs ws : List Value) → {s t : List Char} →
    (∀ n ∈ numbersItems vs, n.proper) → (∀ n ∈ numbersItems ws, n.proper) →
    printItems vs ++ ']' :: s = printItems ws ++ ']' :: t → vs = ws ∧ s = t := by
  intro vs ws s t hvs hws h
  match vs, ws with
  | [], [] => exact ⟨rfl, (cons.inj h).2⟩
  | [], w :: ws =>
    rw [printItems_cons] at h
    exact absurd h (print_ne_cons (fun n hn => hws n (mem_append_left _ hn)) (.inl rfl) _ _)
  | v :: vs, [] =>
    rw [printItems_cons] at h
    exact absurd h.symm (print_ne_cons (fun n hn => hvs n (mem_append_left _ hn)) (.inl rfl) _ _)
  | v :: vs, w :: ws =>
    rw [printItems_cons, printItems_cons] at h
    obtain ⟨rfl, hrest⟩ := print_append_inj v w (fun n hn => hvs n (mem_append_left _ hn))
      (fun n hn => hws n (mem_append_left _ hn)) (closes_afterItem vs s)
      (closes_afterItem ws t) h
    match vs, ws with
    | [], [] => exact ⟨rfl, (cons.inj hrest).2⟩
    | [], w :: ws => exact absurd (cons.inj hrest).1 (by decide)
    | v :: vs, [] => exact absurd (cons.inj hrest).1 (by decide)
    | v' :: vs, w' :: ws =>
      obtain ⟨hitems, hs⟩ := printItems_inj (v' :: vs) (w' :: ws)
        (fun n hn => hvs n (mem_append_right _ hn))
        (fun n hn => hws n (mem_append_right _ hn)) (cons.inj hrest).2
      exact ⟨by rw [hitems], hs⟩

theorem printFields_inj : (xs ys : List (String × Value)) → {s t : List Char} →
    (∀ n ∈ numbersFields xs, n.proper) → (∀ n ∈ numbersFields ys, n.proper) →
    printFields xs ++ '\x7d' :: s = printFields ys ++ '\x7d' :: t → xs = ys ∧ s = t := by
  intro xs ys s t hxs hys h
  match xs, ys with
  | [], [] => exact ⟨rfl, (cons.inj h).2⟩
  | [], (key, w) :: ys =>
    rw [printFields_cons] at h
    exact absurd (cons.inj h).1 (by decide)
  | (key, v) :: xs, [] =>
    rw [printFields_cons] at h
    exact absurd (cons.inj h).1 (by decide)
  | (key, v) :: xs, (other, w) :: ys =>
    rw [printFields_cons, printFields_cons] at h
    obtain ⟨rfl, hvalue⟩ := printString_append_inj h
    obtain ⟨rfl, hrest⟩ := print_append_inj v w (fun n hn => hxs n (mem_append_left _ hn))
      (fun n hn => hys n (mem_append_left _ hn)) (closes_afterField xs s)
      (closes_afterField ys t) (cons.inj hvalue).2
    match xs, ys with
    | [], [] => exact ⟨rfl, (cons.inj hrest).2⟩
    | [], _ :: _ => exact absurd (cons.inj hrest).1 (by decide)
    | _ :: _, [] => exact absurd (cons.inj hrest).1 (by decide)
    | x :: xs, y :: ys =>
      obtain ⟨hfields, hs⟩ := printFields_inj (x :: xs) (y :: ys)
        (fun n hn => hxs n (mem_append_right _ hn))
        (fun n hn => hys n (mem_append_right _ hn)) (cons.inj hrest).2
      exact ⟨by rw [hfields], hs⟩

end

/-- A proper value is determined by its text. -/
theorem print_inj (hv : v.Proper) (hw : w.Proper) (h : print v = print w) : v = w := by
  have hnil : Closes [] := nofun
  exact (print_append_inj v w hv hw hnil hnil (by rw [h])).1

/-- A character that a number has is not a line break. -/
theorem newline_notMem_printNumber (h : n.proper) : '\n' ∉ printNumber n := by
  intro hmem
  exact absurd (inNumber_printNumber h '\n' hmem) (by decide)

mutual

/-- The text of a proper value is one line. -/
theorem newline_notMem_print : (v : Value) → v.Proper → '\n' ∉ print v := by
  intro v hv
  match v with
  | .null =>
    rw [print]
    decide
  | .bool b => exact newline_notMem_print_bool b
  | .number n =>
    rw [print]
    exact newline_notMem_printNumber (hv n mem_cons_self)
  | .string s =>
    rw [print]
    exact newline_notMem_printString s
  | .array items =>
    rw [print]
    have hitems := newline_notMem_printItems items hv
    simp [hitems]
  | .object fields =>
    rw [print]
    have hfields := newline_notMem_printFields (newline_notMem_fields fields hv)
    simp [hfields]

theorem newline_notMem_printItems : (vs : List Value) → (∀ n ∈ numbersItems vs, n.proper) →
    '\n' ∉ printItems vs := by
  intro vs hvs
  match vs with
  | [] => exact not_mem_nil
  | [v] =>
    rw [printItems]
    exact newline_notMem_print v (fun n hn => hvs n (mem_append_left _ hn))
  | v :: w :: vs =>
    have hv := newline_notMem_print v (fun n hn => hvs n (mem_append_left _ hn))
    have hrest := newline_notMem_printItems (w :: vs) (fun n hn =>
      hvs n (mem_append_right _ hn))
    rw [printItems]
    · simp [hv, hrest]
    · simp

theorem newline_notMem_fields : (fields : List (String × Value)) →
    (∀ n ∈ numbersFields fields, n.proper) → ∀ field ∈ fields, '\n' ∉ field.2.print := by
  intro fields hfields
  match fields with
  | [] => exact nofun
  | (key, v) :: fields =>
    rw [forall_mem_cons]
    exact ⟨newline_notMem_print v (fun n hn => hfields n (mem_append_left _ hn)),
      newline_notMem_fields fields (fun n hn => hfields n (mem_append_right _ hn))⟩

end

/-! ## Strings -/

mutual

/-- The decoded strings of a value, keys among them. -/
def strings : Value → List String
  | .string s => [s]
  | .array items => stringsItems items
  | .object fields => stringsFields fields
  | _ => []

def stringsItems : List Value → List String
  | [] => []
  | v :: vs => strings v ++ stringsItems vs

def stringsFields : List (String × Value) → List String
  | [] => []
  | (key, v) :: fields => key :: strings v ++ stringsFields fields

end

mutual

/-- A value with its strings changed, keys among them. -/
def mapStrings (f : String → String) : Value → Value
  | .string s => .string (f s)
  | .array items => .array (mapStringsItems f items)
  | .object fields => .object (mapStringsFields f fields)
  | v => v

def mapStringsItems (f : String → String) : List Value → List Value
  | [] => []
  | v :: vs => mapStrings f v :: mapStringsItems f vs

def mapStringsFields (f : String → String) : List (String × Value) → List (String × Value)
  | [] => []
  | (key, v) :: fields => (f key, mapStrings f v) :: mapStringsFields f fields

end

mutual

theorem numbers_mapStrings (f : String → String) :
    (v : Value) → numbers (mapStrings f v) = numbers v := by
  intro v
  match v with
  | .null | .bool _ | .number _ | .string _ => rfl
  | .array items => exact numbersItems_mapStrings f items
  | .object fields => exact numbersFields_mapStrings f fields

theorem numbersItems_mapStrings (f : String → String) :
    (vs : List Value) → numbersItems (mapStringsItems f vs) = numbersItems vs := by
  intro vs
  match vs with
  | [] => rfl
  | v :: vs =>
    rw [mapStringsItems, numbersItems, numbersItems, numbers_mapStrings f v,
      numbersItems_mapStrings f vs]

theorem numbersFields_mapStrings (f : String → String) : (fields : List (String × Value)) →
      numbersFields (mapStringsFields f fields) = numbersFields fields := by
  intro fields
  match fields with
  | [] => rfl
  | (key, v) :: fields =>
    rw [mapStringsFields, numbersFields, numbersFields, numbers_mapStrings f v,
      numbersFields_mapStrings f fields]

end

/-- Strings do not matter to the numbers of a value. -/
theorem proper_mapStrings (h : v.Proper) : (mapStrings f v).Proper := by
  rw [Proper, numbers_mapStrings]
  exact h

end Value

end Abbey.Lib
