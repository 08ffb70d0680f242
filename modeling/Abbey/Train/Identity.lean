import Abbey.Lib.Framing
import Abbey.Train.Codec
import Abbey.Train.Dataset

/-!
# What the digest of a corpus identifies

The payload of the digest is a sequence of fields with a zero byte after each
(`datasetPayload_eq`), and a field may hold zero bytes of its own.

* `datasetDigest_inj`: corpora without such characters have different digests.
* `identifies_iff`: the corpora that no other corpus shares its digest with.
* `memoryCorpus_order_iff`: when the listing order does not matter.
-/

namespace Abbey.Train

open Abbey.Lib List Pair
open Abbey.Conversation (Sha256 utf8 lowerHex lowerHex_injective trim)
open Abbey.Learning (utf8_append)
open Abbey.Memory (MemoryFilter MemoryRecord)

/-- The character of a zero byte. -/
def nul : Char := '\x00'

variable {sha : Sha256} {p q : List Pair} {m n : Nat}

/-! ## Fields -/

def Pair.fields (sha : Sha256) (percent : Nat) (pair : Pair) : List (List Char) :=
  [(assign sha pair.id percent).asStr.toList, pair.id.toList, pair.prompt.toList,
    pair.response.toList]

/-- The fields of a corpus. -/
def datasetFields (sha : Sha256) (pairs : List Pair) (percent : Nat) : List (List Char) :=
  splitRule.toList :: (toString percent).toList :: pairs.flatMap (Pair.fields sha percent)

/-- The text of the payload. -/
def datasetText (sha : Sha256) (pairs : List Pair) (percent : Nat) : List Char :=
  terminated nul (datasetFields sha pairs percent)

theorem utf8_field (s : String) (rest : List Char) :
    utf8 (String.ofList (s.toList ++ nul :: rest)) = utf8 s ++ [0] ++ utf8 (String.ofList rest) := by
  have hsplit : String.ofList (s.toList ++ nul :: rest) = s ++ "\x00" ++ String.ofList rest := by
    apply String.toList_inj.mp
    simp [nul]
  rw [hsplit, utf8_append, utf8_append]
  rfl

/-- The payload is the text of the fields. -/
theorem datasetPayload_eq (sha : Sha256) (pairs : List Pair) (percent : Nat) :
    datasetPayload sha pairs percent = utf8 (String.ofList (datasetText sha pairs percent)) := by
  have hpairs : ∀ pairs : List Pair, utf8 (String.ofList
      (terminated nul (pairs.flatMap (fields sha percent)))) =
      pairs.flatMap (fun pair =>
        utf8 (assign sha pair.id percent).asStr ++ [0] ++ utf8 pair.id ++ [0] ++
          utf8 pair.prompt ++ [0] ++ utf8 pair.response ++ [0]) := by
    intro pairs
    induction pairs with
    | nil => rfl
    | cons pair pairs ih =>
      rw [flatMap_cons, terminated_append, fields, terminated_cons, terminated_cons,
        terminated_cons, terminated_cons]
      simp only [append_assoc, cons_append]
      rw [utf8_field, utf8_field, utf8_field, utf8_field]
      rw [show terminated nul [] ++ terminated nul (pairs.flatMap (fields sha percent)) =
        terminated nul (pairs.flatMap (fields sha percent)) from rfl, ih]
      simp [flatMap_cons]
  rw [datasetText, datasetFields, terminated_cons, terminated_cons, utf8_field, utf8_field, hpairs]
  simp [datasetPayload]

/-- No other corpus has the hash of one. -/
def CollisionFree (sha : Sha256) (p : List Pair) (m : Nat) : Prop :=
  ∀ q n, sha (utf8 datasetDomain ++ [0] ++ datasetPayload sha q n) =
      sha (utf8 datasetDomain ++ [0] ++ datasetPayload sha p m) →
    datasetPayload sha q n = datasetPayload sha p m

/-- Equal digests are equal texts. -/
theorem digest_eq_iff (hfree : CollisionFree sha p m) :
    datasetDigest sha p m = datasetDigest sha q n ↔ datasetText sha p m = datasetText sha q n := by
  constructor
  · intro h
    have hhex : lowerHex (sha (utf8 datasetDomain ++ [0] ++ datasetPayload sha p m)).toList =
        lowerHex (sha (utf8 datasetDomain ++ [0] ++ datasetPayload sha q n)).toList := by
      have hlist := congrArg String.toList h
      unfold datasetDigest digest at hlist
      rw [String.toList_append, String.toList_append] at hlist
      exact String.toList_inj.mp (append_cancel_left hlist)
    have hpayload := hfree q n (Vector.toList_inj.mp (lowerHex_injective hhex)).symm
    rw [datasetPayload_eq, datasetPayload_eq] at hpayload
    exact (String.ofList_injective (utf8_inj hpayload)).symm
  · intro h
    unfold datasetDigest
    rw [datasetPayload_eq, datasetPayload_eq, h]

/-! ## Corpora without zero characters -/

/-- No field of a pair has a zero character. -/
def Pair.Plain (pair : Pair) : Prop :=
  nul ∉ pair.id.toList ∧ nul ∉ pair.prompt.toList ∧ nul ∉ pair.response.toList

theorem nul_notMem_asStr (split : Split) : nul ∉ split.asStr.toList := by
  cases split <;> decide

theorem nul_notMem_splitRule : nul ∉ splitRule.toList := by decide

theorem nul_notMem_toString (n : Nat) : nul ∉ (toString n).toList :=
  fun h => absurd (isDigit_toString n nul h) (by decide)

theorem asStr_inj {a b : Split} (h : a.asStr.toList = b.asStr.toList) : a = b := by
  cases a <;> cases b <;> first | rfl | exact absurd h (by decide)

theorem plain_datasetFields (h : ∀ pair ∈ p, pair.Plain) :
    ∀ field ∈ datasetFields sha p m, nul ∉ field := by
  unfold datasetFields
  rw [forall_mem_cons, forall_mem_cons]
  refine ⟨nul_notMem_splitRule, nul_notMem_toString m, ?_⟩
  intro field hfield
  obtain ⟨pair, hpair, hin⟩ := mem_flatMap.mp hfield
  obtain ⟨hid, hprompt, hresponse⟩ := h pair hpair
  simp only [fields, mem_cons, not_mem_nil, or_false] at hin
  rcases hin with rfl | rfl | rfl | rfl
  · exact nul_notMem_asStr _
  · exact hid
  · exact hprompt
  · exact hresponse

/-- The fields are those of one corpus. -/
theorem datasetFields_inj (h : datasetFields sha p m = datasetFields sha q n) : p = q ∧ m = n := by
  unfold datasetFields at h
  rw [cons.injEq, cons.injEq] at h
  obtain ⟨_, hpercent, hpairs⟩ := h
  refine ⟨?_, toString_inj hpercent⟩
  induction p generalizing q with
  | nil =>
    cases q with
    | nil => rfl
    | cons y q => cases hpairs
  | cons x p ih =>
    cases q with
    | nil => cases hpairs
    | cons y q =>
      rw [flatMap_cons, flatMap_cons] at hpairs
      simp only [fields, cons_append, nil_append, cons.injEq] at hpairs
      obtain ⟨_, hid, hprompt, hresponse, hrest⟩ := hpairs
      have hpair : x = y := by
        cases x
        cases y
        rw [mk.injEq]
        exact ⟨String.toList_inj.mp hid, String.toList_inj.mp hprompt, String.toList_inj.mp hresponse⟩
      rw [hpair, ih hrest]

/-- Two corpora without zero characters share a digest only if they are one. -/
theorem datasetDigest_inj (hfree : CollisionFree sha p m) (hp : ∀ pair ∈ p, pair.Plain)
    (hq : ∀ pair ∈ q, pair.Plain) (h : datasetDigest sha p m = datasetDigest sha q n) :
    p = q ∧ m = n := by
  have htext := (digest_eq_iff hfree).mp h
  exact datasetFields_inj (terminated_inj (plain_datasetFields hp) (plain_datasetFields hq) htext)

/-! ## Corpora that are told from all others -/

/-- A corpus with at most one pair, whose prompt and response have no zero
character; where its id has one, what stands before it is in the other split. -/
def Sole (sha : Sha256) (p : List Pair) (m : Nat) : Prop :=
  p = [] ∨ ∃ x, p = [x] ∧ nul ∉ x.prompt.toList ∧ nul ∉ x.response.toList ∧
    ∀ before after, x.id.toList = before ++ nul :: after →
      assign sha (String.ofList before) m ≠ assign sha x.id m

/-- The digest of a corpus is that of no other. -/
def Identifies (sha : Sha256) (p : List Pair) (m : Nat) : Prop :=
  ∀ q n, datasetDigest sha p m = datasetDigest sha q n → p = q ∧ m = n

theorem datasetText_cons (x : Pair) (p : List Pair) :
    datasetText sha (x :: p) m = splitRule.toList ++ nul :: ((toString m).toList ++ nul ::
      ((assign sha x.id m).asStr.toList ++ nul :: (x.id.toList ++ nul :: (x.prompt.toList ++ nul ::
        (x.response.toList ++ nul :: terminated nul (p.flatMap (fields sha m))))))) := by
  rw [datasetText, datasetFields, terminated_cons, terminated_cons, flatMap_cons, terminated_append,
    fields, terminated_cons, terminated_cons, terminated_cons, terminated_cons]
  simp [terminated]

/-- A zero character can be counted to the field before or after. -/
theorem sole_of_identifies (hfree : CollisionFree sha p m) (h : Identifies sha p m) :
    Sole sha p m := by
  have hone : ∀ q, datasetText sha p m = datasetText sha q m → p = q :=
    fun q htext => (h q m ((digest_eq_iff hfree).mpr htext)).1
  match p with
  | [] => exact .inl rfl
  | x :: y :: rest =>
    -- The second pair can be the end of the first response.
    have hmerged := hone (⟨x.id, x.prompt, String.ofList (x.response.toList ++ nul ::
      ((assign sha y.id m).asStr.toList ++ nul :: (y.id.toList ++ nul ::
        (y.prompt.toList ++ nul :: y.response.toList))))⟩ :: rest) (by
      rw [datasetText_cons, datasetText_cons, flatMap_cons, terminated_append, fields,
        terminated_cons, terminated_cons, terminated_cons, terminated_cons]
      simp [terminated])
    have hlength := congrArg length hmerged
    simp at hlength
  | [x] =>
    refine .inr ⟨x, rfl, ?_, ?_, ?_⟩
    · intro hnul
      obtain ⟨before, after, hprompt⟩ := append_of_mem hnul
      have hmoved := hone [⟨x.id, String.ofList before,
        String.ofList (after ++ nul :: x.response.toList)⟩] (by
        rw [datasetText_cons, datasetText_cons, hprompt]
        simp)
      have hsame := congrArg (fun pair => pair.prompt.toList.length) (cons.inj hmoved).1
      simp [hprompt] at hsame
    · intro hnul
      obtain ⟨before, after, hresponse⟩ := append_of_mem hnul
      have hmoved := hone [⟨x.id, String.ofList (x.prompt.toList ++ nul :: before),
        String.ofList after⟩] (by
        rw [datasetText_cons, datasetText_cons, hresponse]
        simp)
      have hsame := congrArg (fun pair => pair.prompt.toList.length) (cons.inj hmoved).1
      simp at hsame
    · intro before after hid hassign
      have hmoved := hone [⟨String.ofList before, String.ofList after,
        String.ofList (x.prompt.toList ++ nul :: x.response.toList)⟩] (by
        rw [datasetText_cons, datasetText_cons, hid]
        simp only [hassign]
        simp)
      have hsame := congrArg (fun pair => pair.id.toList.length) (cons.inj hmoved).1
      simp [hid] at hsame

/-- What a reader of the text sees. -/
def datasetParts (sha : Sha256) (pairs : List Pair) (percent : Nat) : List (List Char) :=
  (pairs.flatMap (Pair.fields sha percent)).flatMap (parts nul)

theorem parts_of_text (h : datasetText sha p m = datasetText sha q n) :
    m = n ∧ datasetParts sha p m = datasetParts sha q n := by
  have hframe := congrArg (fun cs => (frame nul cs).1) h
  simp only [datasetText, frame_terminated, datasetFields, flatMap_cons,
    parts_of_notMem nul_notMem_splitRule, parts_of_notMem (nul_notMem_toString _),
    singleton_append, cons.injEq, true_and] at hframe
  exact ⟨toString_inj hframe.1, hframe.2⟩

theorem datasetParts_cons (x : Pair) (p : List Pair) :
    datasetParts sha (x :: p) m = (assign sha x.id m).asStr.toList ::
      (parts nul x.id.toList ++ (parts nul x.prompt.toList ++
        (parts nul x.response.toList ++ datasetParts sha p m))) := by
  simp [datasetParts, fields, parts_of_notMem (nul_notMem_asStr _)]

theorem datasetParts_eq_nil (h : datasetParts sha p m = []) : p = [] := by
  cases p with
  | nil => rfl
  | cons x p =>
    rw [datasetParts_cons] at h
    cases h

/-- The parts of an id, and what is after them, end where the id does. -/
theorem id_of_parts {x y : String} {rest : List (List Char)}
    (h : parts nul x.toList = parts nul y.toList ++ rest) (hrest : rest ≠ []) :
    ∃ after, x.toList = y.toList ++ nul :: after := by
  have hx := @terminated_parts Char _ nul x.toList
  rw [h, terminated_append, terminated_parts] at hx
  obtain ⟨front, last, rfl⟩ : ∃ front last, rest = front ++ [last] :=
    ⟨_, _, (dropLast_append_getLast hrest).symm⟩
  refine ⟨terminated nul front ++ last, ?_⟩
  have happend : (y.toList ++ nul :: (terminated nul front ++ last)) ++ [nul] = x.toList ++ [nul] := by
    rw [← hx, terminated_append]
    simp [terminated]
  exact (append_cancel_right happend).symm

/-- Nothing can be counted otherwise. -/
theorem identifies_of_sole (hfree : CollisionFree sha p m) (h : Sole sha p m) :
    Identifies sha p m := by
  intro q n hdigest
  obtain ⟨rfl, hparts⟩ := parts_of_text ((digest_eq_iff hfree).mp hdigest)
  refine ⟨?_, rfl⟩
  rcases h with rfl | ⟨x, rfl, hprompt, hresponse, hid⟩
  · exact (datasetParts_eq_nil hparts.symm).symm
  · cases q with
    | nil =>
      rw [datasetParts_cons] at hparts
      cases hparts
    | cons y q =>
      rw [datasetParts_cons, datasetParts_cons, parts_of_notMem hprompt, parts_of_notMem hresponse,
        cons.injEq] at hparts
      obtain ⟨hlabel, hfields⟩ := hparts
      have hsplit := asStr_inj hlabel
      have hsame : parts nul x.id.toList = parts nul y.id.toList → [x] = y :: q := by
        intro hids
        rw [hids] at hfields
        obtain ⟨hp, hr, hq⟩ := eq_of_two_parts (append_cancel_left hfields)
        rw [datasetParts_eq_nil hq]
        cases x
        cases y
        rw [cons.injEq, mk.injEq]
        exact ⟨⟨String.toList_inj.mp (parts_inj hids), String.toList_inj.mp hp.symm,
          String.toList_inj.mp hr.symm⟩, rfl⟩
      rcases append_eq_append_iff.mp hfields with ⟨rest, hy, hrest⟩ | ⟨rest, hx, _⟩
      · -- The id of the other has all parts of this one: two are left for the rest.
        have hlength := congrArg length hrest
        have hpromptPos := length_pos_of_ne_nil (@parts_ne_nil Char _ nul y.prompt.toList)
        have hresponsePos := length_pos_of_ne_nil (@parts_ne_nil Char _ nul y.response.toList)
        simp only [length_append, length_cons, length_nil, datasetParts, flatMap_nil] at hlength
        have hnil : rest = [] := eq_nil_of_length_eq_zero (by omega)
        rw [hnil, append_nil] at hy
        exact hsame hy.symm
      · by_cases hnil : rest = []
        · rw [hnil, append_nil] at hx
          exact hsame hx
        · obtain ⟨after, hafter⟩ := id_of_parts hx hnil
          exact absurd (by rw [String.ofList_toList, hsplit]) (hid y.id.toList after hafter)

/-- The corpora that are told from all others. -/
theorem identifies_iff (hfree : CollisionFree sha p m) : Identifies sha p m ↔ Sole sha p m :=
  ⟨sole_of_identifies hfree, identifies_of_sole hfree⟩

/-! ## The listing order -/

section Listing

variable {parseRfc3339 : String → Option Int} {distillPair : String → Option (String × String)}
  {listed other : List MemoryRecord}

/-- The pair of a record that gives one. -/
def usable (distillPair : String → Option (String × String)) (record : MemoryRecord) :
    Option Pair :=
  (candidate distillPair record).toOption.map Prod.fst

/-- The pairs of the loop. -/
theorem pairs_foldl (records : List MemoryRecord) (corpus : Corpus) :
    (records.foldl (Corpus.add distillPair) corpus).pairs =
      corpus.pairs ++ records.filterMap (usable distillPair) := by
  induction records generalizing corpus with
  | nil => simp
  | cons record records ih =>
    rw [foldl_cons, ih, filterMap_cons]
    unfold Corpus.add usable
    cases candidate distillPair record with
    | error reason => rfl
    | ok found =>
      simp [Except.toOption]

theorem id_of_usable {record : MemoryRecord} {pair : Pair}
    (h : usable distillPair record = some pair) : pair.id = record.id := by
  unfold usable candidate at h
  split_ifs at h
  · cases h
  · cases h
  · cases h
  · cases hpair : distillPair record.payload with
    | none =>
      rw [hpair] at h
      cases h
    | some found =>
      rw [hpair] at h
      dsimp only at h
      split_ifs at h
      · cases h
      · cases h
        rfl

theorem splitOrder_trans (a b c : Pair) (hab : splitOrder sha m a b) (hbc : splitOrder sha m b c) :
    splitOrder sha m a c := by
  simp only [splitOrder, Bool.or_eq_true, Bool.and_eq_true, decide_eq_true_eq] at *
  rcases hab with hab | ⟨hab, hab'⟩
  · left
    rcases hbc with hbc | ⟨hbc, _⟩ <;> omega
  · rcases hbc with hbc | ⟨hbc, hbc'⟩
    · left
      omega
    · right
      exact ⟨hab.trans hbc, hab'.trans hbc'⟩

theorem splitOrder_total (a b : Pair) : (splitOrder sha m a b || splitOrder sha m b a) := by
  simp only [splitOrder, Bool.or_eq_true, Bool.and_eq_true, decide_eq_true_eq]
  rcases Nat.lt_trichotomy (assign sha a.id m).rank (assign sha b.id m).rank with h | h | h
  · exact .inl (.inl h)
  · rcases le_total a.id b.id with hid | hid
    · exact .inl (.inr ⟨h, hid⟩)
    · exact .inr (.inr ⟨h.symm, hid⟩)
  · exact .inr (.inl h)

theorem splitOrder_antisymm {a b : Pair} (hab : splitOrder sha m a b) (hba : splitOrder sha m b a) :
    a.id = b.id := by
  simp only [splitOrder, Bool.or_eq_true, Bool.and_eq_true, decide_eq_true_eq] at hab hba
  rcases hab with hab | ⟨hab, hab'⟩
  · rcases hba with hba | ⟨hba, _⟩ <;> omega
  · rcases hba with hba | ⟨_, hba'⟩
    · omega
    · exact le_antisymm hab' hba'

/-- Pairs with distinct ids have one split order. -/
theorem sortIntoSplitOrder_perm {xs ys : List Pair} (hids : (xs.map Pair.id).Nodup)
    (hperm : xs.Perm ys) : sortIntoSplitOrder sha m xs = sortIntoSplitOrder sha m ys := by
  have hsorted : ∀ zs : List Pair, (sortIntoSplitOrder sha m zs).Pairwise
      (fun a b => splitOrder sha m a b) :=
    fun zs => pairwise_mergeSort splitOrder_trans splitOrder_total zs
  have hsame : (sortIntoSplitOrder sha m xs).Perm (sortIntoSplitOrder sha m ys) :=
    (mergeSort_perm xs _).trans (hperm.trans (mergeSort_perm ys _).symm)
  refine hsame.eq_of_pairwise ?_ (hsorted xs) (hsorted ys)
  intro a b ha hb hab hba
  have hmemA := (mergeSort_perm xs _).mem_iff.mp ha
  have hmemB := hperm.mem_iff.mpr ((mergeSort_perm ys _).mem_iff.mp hb)
  exact inj_on_of_nodup_map hids hmemA hmemB (splitOrder_antisymm hab hba)

/-- The pairs of the corpus are those of the candidates in the split order. -/
theorem pairs_memoryCorpus (listed : List MemoryRecord) :
    (memoryCorpus sha parseRfc3339 distillPair listed).pairs = sortIntoSplitOrder sha trainPercent
      (((candidates parseRfc3339 listed).filterMap (usable distillPair)).mergeSort
        (fun a b => Decidable.decide (a.id ≤ b.id))) := by
  rw [memoryCorpus, pairs_foldl]
  rfl

/-- The records of a listing that the filter matches. -/
def matching (parseRfc3339 : String → Option Int) (listed : List MemoryRecord) :
    List MemoryRecord :=
  listed.filter (MemoryFilter.matches parseRfc3339
    ⟨some "train_candidate", none, none, none, none, none, none⟩)

theorem candidates_eq (listed : List MemoryRecord) :
    candidates parseRfc3339 listed = (matching parseRfc3339 listed).take 10000 := rfl

theorem ids_filterMap_nodup {records : List MemoryRecord} (h : (records.map MemoryRecord.id).Nodup) :
    ((records.filterMap (usable distillPair)).map Pair.id).Nodup := by
  have hsub : ((records.filterMap (usable distillPair)).map Pair.id).Sublist
      (records.map MemoryRecord.id) := by
    induction records with
    | nil => exact List.Sublist.refl []
    | cons record records ih =>
      rw [map_cons, nodup_cons] at h
      rw [filterMap_cons]
      cases hpair : usable distillPair record with
      | none => exact (ih h.2).cons _
      | some pair =>
        rw [map_cons, map_cons, id_of_usable hpair]
        exact (ih h.2).cons₂ _
  exact hsub.nodup h

theorem pairs_eq_of_perm (hids : (listed.map MemoryRecord.id).Nodup)
    (hperm : (candidates parseRfc3339 other).Perm (candidates parseRfc3339 listed)) :
    (memoryCorpus sha parseRfc3339 distillPair other).pairs =
      (memoryCorpus sha parseRfc3339 distillPair listed).pairs := by
  have hlisted : ((candidates parseRfc3339 listed).map MemoryRecord.id).Nodup :=
    (((take_sublist _ _).trans filter_sublist).map MemoryRecord.id).nodup hids
  rw [pairs_memoryCorpus, pairs_memoryCorpus]
  have hpairs := hperm.filterMap (usable distillPair)
  refine sortIntoSplitOrder_perm ?_ ?_
  · have hother : ((candidates parseRfc3339 other).map MemoryRecord.id).Nodup :=
      (hperm.map MemoryRecord.id).nodup_iff.mpr hlisted
    exact ((mergeSort_perm _ _).map Pair.id).nodup_iff.mpr (ids_filterMap_nodup hother)
  · exact (mergeSort_perm _ _).trans (hpairs.trans (mergeSort_perm _ _).symm)

theorem mem_pairs_memoryCorpus (pair : Pair) (listed : List MemoryRecord) :
    pair ∈ (memoryCorpus sha parseRfc3339 distillPair listed).pairs ↔
      ∃ record ∈ candidates parseRfc3339 listed, usable distillPair record = some pair := by
  rw [pairs_memoryCorpus, sortIntoSplitOrder, mem_mergeSort, mem_mergeSort, mem_filterMap]

/-- The order of the listing does not matter as long as the limit leaves no
candidate out, or none gives a pair. -/
theorem memoryCorpus_order_iff (hids : (listed.map MemoryRecord.id).Nodup) :
    (∀ other, other.Perm listed → (memoryCorpus sha parseRfc3339 distillPair other).pairs =
        (memoryCorpus sha parseRfc3339 distillPair listed).pairs) ↔
      (matching parseRfc3339 listed).length ≤ 10000 ∨
        ∀ record ∈ matching parseRfc3339 listed, usable distillPair record = none := by
  constructor
  · intro horder
    by_contra hcond
    rw [not_or, Nat.not_le] at hcond
    obtain ⟨hlong, husable⟩ := hcond
    simp only [not_forall] at husable
    obtain ⟨record, hrecord, hpair⟩ := husable
    obtain ⟨pair, hpair⟩ := Option.ne_none_iff_exists'.mp hpair
    obtain ⟨before, after, hsplit⟩ := append_of_mem hrecord
    -- The record is listed first, and then last.
    let rest := listed.filter (fun r => !MemoryFilter.matches parseRfc3339
      ⟨some "train_candidate", none, none, none, none, none, none⟩ r)
    have hall : (matching parseRfc3339 listed ++ rest).Perm listed := filter_append_perm _ _
    have hfirst : (record :: (before ++ after) ++ rest).Perm listed := by
      refine List.Perm.trans (List.Perm.append_right rest ?_) hall
      rw [hsplit]
      exact perm_middle.symm
    have hlast : (before ++ after ++ [record] ++ rest).Perm listed := by
      refine List.Perm.trans (List.Perm.append_right rest ?_) hall
      rw [hsplit, append_assoc]
      exact List.Perm.append_left before (perm_append_singleton record after)
    have hmatching : ∀ records : List MemoryRecord, records.Perm (matching parseRfc3339 listed) →
          matching parseRfc3339 (records ++ rest) = records := by
      intro records hperm
      have hin : ∀ r ∈ records, MemoryFilter.matches parseRfc3339
          ⟨some "train_candidate", none, none, none, none, none, none⟩ r :=
        fun r hr => (mem_filter.mp (hperm.mem_iff.mp hr)).2
      rw [matching, filter_append, filter_eq_self.mpr hin, filter_eq_nil_iff.mpr, append_nil]
      intro r hr
      simpa using (mem_filter.mp hr).2
    have hmatchFirst := hmatching (record :: (before ++ after))
      (by rw [hsplit]; exact perm_middle.symm)
    have hmatchLast := hmatching (before ++ after ++ [record]) (by
      rw [hsplit, append_assoc]
      exact List.Perm.append_left before (perm_append_singleton record after))
    have hlength := congrArg length hsplit
    rw [length_append, length_cons] at hlength
    have hin : pair ∈ (memoryCorpus sha parseRfc3339 distillPair
        (record :: (before ++ after) ++ rest)).pairs := by
      rw [mem_pairs_memoryCorpus]
      refine ⟨record, ?_, hpair⟩
      rw [candidates_eq, hmatchFirst, take_succ_cons]
      exact mem_cons_self
    rw [horder _ hfirst, ← horder _ hlast, mem_pairs_memoryCorpus] at hin
    obtain ⟨found, hfound, hsame⟩ := hin
    rw [candidates_eq, hmatchLast, take_append_of_le_length
      (by rw [length_append]; omega)] at hfound
    have hmem : found ∈ before ++ after := take_subset _ _ hfound
    have hid : found.id = record.id := (id_of_usable hsame).symm.trans (id_of_usable hpair)
    have hnodup : ((before ++ record :: after).map MemoryRecord.id).Nodup := by
      rw [← hsplit]
      exact (filter_sublist.map MemoryRecord.id).nodup hids
    have hcons := (perm_middle.map MemoryRecord.id).nodup_iff.mp hnodup
    rw [map_cons, nodup_cons] at hcons
    exact hcons.1 (hid ▸ mem_map_of_mem hmem)
  · intro hcond other hperm
    have hmatching : (matching parseRfc3339 other).Perm (matching parseRfc3339 listed) :=
      hperm.filter _
    rcases hcond with hshort | hnone
    · refine pairs_eq_of_perm hids ?_
      rw [candidates_eq, candidates_eq, take_of_length_le hshort,
        take_of_length_le (hmatching.length_eq.trans_le hshort)]
      exact hmatching
    · have hempty : ∀ records : List MemoryRecord,
          (matching parseRfc3339 records).Perm (matching parseRfc3339 listed) →
            (candidates parseRfc3339 records).filterMap (usable distillPair) = [] := by
        intro records hperm
        rw [filterMap_eq_nil_iff]
        intro r hr
        exact hnone r (hperm.mem_iff.mp (take_subset _ _ hr))
      rw [pairs_memoryCorpus, pairs_memoryCorpus, hempty other hmatching,
        hempty listed (List.Perm.refl _)]

end Listing

/-! ## The identity of a corpus -/

/-- Corpora without zero characters are told apart by their digests; a corpus is
told from all others exactly when it is `Sole`; and the memory corpus does not
depend on the listing exactly when the limit leaves nothing usable out. -/
theorem corpus_identity (hfree : CollisionFree sha p m) :
    (∀ q n, (∀ pair ∈ p, pair.Plain) → (∀ pair ∈ q, pair.Plain) →
        datasetDigest sha p m = datasetDigest sha q n → p = q ∧ m = n) ∧
      (Identifies sha p m ↔ Sole sha p m) ∧
      ∀ (parseRfc3339 : String → Option Int) (distillPair : String → Option (String × String))
        (listed : List MemoryRecord), (listed.map MemoryRecord.id).Nodup →
        ((∀ other, other.Perm listed →
            (memoryCorpus sha parseRfc3339 distillPair other).pairs =
                (memoryCorpus sha parseRfc3339 distillPair listed).pairs ∧
              ∀ percent,
                datasetDigest sha (memoryCorpus sha parseRfc3339 distillPair other).pairs percent =
                  datasetDigest sha (memoryCorpus sha parseRfc3339 distillPair listed).pairs percent) ↔
          (matching parseRfc3339 listed).length ≤ 10000 ∨
            ∀ record ∈ matching parseRfc3339 listed, usable distillPair record = none) := by
  refine ⟨?_, identifies_iff hfree, ?_⟩
  · intro q n hp hq h
    exact datasetDigest_inj hfree hp hq h
  · intro parseRfc3339 distillPair listed hids
    rw [← @memoryCorpus_order_iff sha parseRfc3339 distillPair listed hids]
    constructor
    · exact fun h other hperm => (h other hperm).1
    · intro h other hperm
      exact ⟨h other hperm, fun percent => by rw [h other hperm]⟩

/-- A zero character between two words counts to either field. -/
theorem corpora_share_digest : ∃ (p q : List Pair) (m n : Nat),
    (∀ sha, datasetDigest sha p m = datasetDigest sha q n) ∧ ¬ (p = q ∧ m = n) := by
  refine ⟨[⟨"a", "x\x00y", "z"⟩], [⟨"a", "x", "y\x00z"⟩], 80, 80, ?_, by decide⟩
  intro sha
  unfold datasetDigest
  rw [datasetPayload_eq, datasetPayload_eq, datasetText_cons, datasetText_cons]
  rfl

def samplePairs : List Pair := [⟨"a", "x", "y"⟩]

/-- The message that the digest of the sample hashes. -/
def sampleMessage : List UInt8 :=
  utf8 "abbey.train.dataset.v1\x00abbey.train.split.v1\x0080\x00train\x00a\x00x\x00y\x00"

def sampleSha : Sha256 := fun message =>
  if message = sampleMessage then Conversation.digest32 1 else Conversation.digest32 0

theorem sampleMessage_eq :
    utf8 datasetDomain ++ [0] ++ datasetPayload sampleSha samplePairs 80 = sampleMessage := by
  decide +kernel

theorem collisionFree_sample : CollisionFree sampleSha samplePairs 80 := by
  intro q n h
  rw [sampleMessage_eq] at h
  have hmessage : utf8 datasetDomain ++ [0] ++ datasetPayload sampleSha q n = sampleMessage := by
    by_contra hne
    have hhash : sampleSha sampleMessage = Conversation.digest32 1 := if_pos rfl
    rw [hhash, show sampleSha _ = Conversation.digest32 0 from if_neg hne] at h
    exact absurd h (by decide)
  rw [← sampleMessage_eq] at hmessage
  exact append_cancel_left hmessage

/-- A curated record. -/
def sampleRecord (id : String) : MemoryRecord where
  id := id
  sourceType := "distill"
  sourceRef := ""
  project := ""
  timestamp := "2026-01-01T00:00:00Z"
  origin := "abbey"
  payload := "\x7b\"prompt\":\"x\",\"response\":\"y\",\"teacher\":\"t\",\"on_device\":true\x7d"
  summary := ""
  tags := []
  embeddingRef := none
  confidence := .finite 1
  provenance := "user"
  retention := "train_candidate"
  supersedes := none
  classification := "private"
  obsolete := false

theorem corpus_identity_sample :
    (∀ q n, datasetDigest sampleSha samplePairs 80 = datasetDigest sampleSha q n →
        samplePairs = q ∧ 80 = n) ∧
      (∀ n, datasetDigest sampleSha samplePairs 80 = datasetDigest sampleSha samplePairs n → 80 = n) ∧
      ∀ other, other.Perm [sampleRecord "a", sampleRecord "b"] →
        (memoryCorpus sampleSha (fun _ => none) (fun _ => some ("x", "y")) other).pairs =
          (memoryCorpus sampleSha (fun _ => none) (fun _ => some ("x", "y"))
            [sampleRecord "a", sampleRecord "b"]).pairs := by
  have hplain : ∀ pair ∈ samplePairs, pair.Plain := by
    intro pair hpair
    rw [mem_singleton.mp hpair]
    exact ⟨by decide, by decide, by decide⟩
  have hsole : Sole sampleSha samplePairs 80 := by
    refine .inr ⟨_, rfl, by decide, by decide, ?_⟩
    intro before after hid
    have hnul : nul ∈ "a".toList := by
      rw [show "a".toList = before ++ nul :: after from hid]
      exact mem_append_right before mem_cons_self
    exact absurd hnul (by decide)
  have hidentity := corpus_identity collisionFree_sample
  refine ⟨hidentity.2.1.mpr hsole, fun n h => (hidentity.1 _ n hplain hplain h).2, ?_⟩
  intro other hperm
  exact ((hidentity.2.2 (fun _ => none) (fun _ => some ("x", "y")) _ (by decide)).mpr
    (.inl (by decide)) other hperm).1

end Abbey.Train
