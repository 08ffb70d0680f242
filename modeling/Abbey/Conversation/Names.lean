import Abbey.Conversation.Identity
import Mathlib.Data.Set.Function

/-!
# Names and their digests

A digest stands for its name as long as SHA-256 does not collide on the
messages that are hashed.  The encodings themselves lose nothing: the
domain of a message has a fixed length, hexadecimal text has two
characters for each byte, and a scope set is a list of digests of one
length.  `CollisionFree` therefore speaks of SHA-256 on the messages of
some names only.  A conversation id keeps 122 bits of its digest, which is
a second assumption.
-/

namespace Abbey.Conversation

open Abbey.Lib List Except
open Abbey.Run (ConversationId)

/-! ## The encodings -/

/-- Lists of blocks of one length are equal when their joins are. -/
theorem eq_of_flatMap_eq {α β : Type} {f : α → List β} (width : Nat) (hwidth : 0 < width)
    (hf : Function.Injective f) {xs ys : List α} (hxs : ∀ x ∈ xs, (f x).length = width)
    (hys : ∀ y ∈ ys, (f y).length = width) (h : xs.flatMap f = ys.flatMap f) : xs = ys := by
  induction xs generalizing ys with
  | nil =>
    cases ys with
    | nil => rfl
    | cons y ys =>
      have hlength := congrArg length h
      rw [flatMap_nil, flatMap_cons, length_append, length_nil,
        hys y mem_cons_self] at hlength
      omega
  | cons x xs ih =>
    cases ys with
    | nil =>
      have hlength := congrArg length h
      rw [flatMap_nil, flatMap_cons, length_append, length_nil,
        hxs x mem_cons_self] at hlength
      omega
    | cons y ys =>
      rw [flatMap_cons, flatMap_cons] at h
      have hblock : (f x).length = (f y).length := by
        rw [hxs x mem_cons_self, hys y mem_cons_self]
      obtain ⟨hfirst, hrest⟩ := append_inj h hblock
      rw [hf hfirst, ih (fun a ha => hxs a (mem_cons_of_mem x ha))
        (fun b hb => hys b (mem_cons_of_mem y hb)) hrest]

theorem utf8_injective : Function.Injective utf8 := by
  intro s t h
  exact String.toByteArray_inj.mp (ByteArray.ext (Array.toList_inj.mp h))

theorem hexByte_injective : Function.Injective hexByte := by
  have hdigit : ∀ m, m < 16 → ∀ n, n < 16 → Nat.digitChar m = Nat.digitChar n → m = n := by
    decide
  intro a b h
  have ha := a.toNat_lt
  have hb := b.toNat_lt
  simp only [hexByte, cons.injEq, and_true] at h
  have hhigh := hdigit _ (by omega) _ (by omega) h.1
  have hlow := hdigit _ (by omega) _ (by omega) h.2
  refine UInt8.toNat_inj.mp ?_
  omega

theorem lowerHex_injective : Function.Injective lowerHex := by
  intro xs ys h
  have htext : xs.flatMap hexByte = ys.flatMap hexByte := by
    have hlist := congrArg String.toList h
    simpa only [lowerHex, String.toList_ofList] using hlist
  exact eq_of_flatMap_eq 2 (by omega) hexByte_injective (fun _ _ => rfl)
    (fun _ _ => rfl) htext

theorem length_utf8 (s : String) : (utf8 s).length = s.utf8ByteSize := rfl

theorem length_of_isLowerHexSha256 (h : isLowerHexSha256 value) : (utf8 value).length = 64 := by
  unfold isLowerHexSha256 at h
  simp only [Bool.and_eq_true, decide_eq_true_eq] at h
  rw [length_utf8]
  exact h.1

/-! ## Collision freedom -/

/-- The message that a scope set is hashed as, after its domain. -/
def scopeSetMaterial (scopes : List ConversationIdentityScope) : List UInt8 :=
  beBytes scopes.length ++ (scopes.map ConversationIdentityScope.sha256).flatMap utf8

theorem scopeSetMaterial_injective : Function.Injective scopeSetMaterial := by
  intro xs ys h
  have hcount : (beBytes xs.length).length = (beBytes ys.length).length := by simp [beBytes]
  have hrest := (append_inj h hcount).2
  have hdigests : ∀ scopes : List ConversationIdentityScope,
      ∀ digest ∈ scopes.map ConversationIdentityScope.sha256, (utf8 digest).length = 64 := by
    intro scopes digest hdigest
    obtain ⟨scope, _, rfl⟩ := mem_map.mp hdigest
    exact length_of_isLowerHexSha256 scope.digest
  have hmap := eq_of_flatMap_eq 64 (by omega) utf8_injective (hdigests xs) (hdigests ys) hrest
  refine map_injective_iff.mpr ?_ hmap
  intro a b hab
  cases a
  cases b
  cases hab
  rfl

/-- The names that a run uses. -/
structure Names where
  editions : Set String
  tokens : Set String
  ids : Set String
  scopeSets : Set (List ConversationIdentityScope)

/-- The messages that the names are hashed as. -/
inductive Names.Hashed (names : Names) : List UInt8 → Prop where
  | edition {slug : String} (h : slug ∈ names.editions) :
    names.Hashed (utf8 "abbey:conversation-identity-edition:v1\x00" ++ utf8 slug)
  | token {token : String} (h : token ∈ names.tokens) :
    names.Hashed (utf8 "abbey:conversation-identity-mutation:v1\x00" ++ utf8 token)
  | id {id : String} (h : id ∈ names.ids) :
    names.Hashed (utf8 "abbey:legacy-conversation-alias:v1\x00" ++ utf8 id)
  | scopeSet {scopes : List ConversationIdentityScope} (h : scopes ∈ names.scopeSets) :
    names.Hashed (utf8 "abbey:conversation-identity-scope-set:v1\x00" ++ scopeSetMaterial scopes)

structure CollisionFree (sha : Sha256) (names : Names) : Prop where
  messages : Set.InjOn sha {message | names.Hashed message}
  conversations : Set.InjOn (conversationOf sha) names.ids

section Digests

variable {sha : Sha256} {names : Names}

variable (hfree : CollisionFree sha names) {other digest : String}

include hfree

/-- A digest of one domain stands for its material. -/
theorem material_eq_of_digest_eq {material other : List UInt8}
    (hmaterial : names.Hashed (utf8 domain ++ material))
    (hother : names.Hashed (utf8 domain ++ other))
    (h : digestParts sha domain material = digestParts sha domain other) : material = other := by
  have hdigest := Vector.toList_inj.mp (lowerHex_injective h)
  exact append_cancel_left (hfree.messages hmaterial hother hdigest)

theorem edition_eq_of_digest_eq (hslug : slug ∈ names.editions)
    (hother : other ∈ names.editions) (h : editionSha256 sha slug = .ok digest)
    (h' : editionSha256 sha other = .ok digest) : slug = other := by
  unfold editionSha256 at h h'
  split_ifs at h h'
  have hdigest := (ok.inj h).trans (ok.inj h').symm
  exact utf8_injective (material_eq_of_digest_eq hfree (.edition hslug) (.edition hother) hdigest)

theorem token_eq_of_digest_eq (htoken : token ∈ names.tokens)
    (hother : other ∈ names.tokens) (h : mutationSha256 sha token = .ok digest)
    (h' : mutationSha256 sha other = .ok digest) : token = other := by
  unfold mutationSha256 at h h'
  split_ifs at h h'
  have hdigest := (ok.inj h).trans (ok.inj h').symm
  exact utf8_injective (material_eq_of_digest_eq hfree (.token htoken) (.token hother) hdigest)

theorem id_eq_of_alias_eq {id : String} (hid : id ∈ names.ids) (hother : other ∈ names.ids)
    (h : aliasSha256 sha id = aliasSha256 sha other) : id = other :=
  utf8_injective (material_eq_of_digest_eq hfree (.id hid) (.id hother) h)

theorem scopes_eq_of_digest_eq
    (hscopes : scopes ∈ names.scopeSets) (hothers : others ∈ names.scopeSets)
    (h : scopeSetSha256 sha scopes = .ok digest) (h' : scopeSetSha256 sha others = .ok digest) :
    scopes = others := by
  unfold scopeSetSha256 scopeSetSha256FromHashes at h h'
  split_ifs at h h'
  have hdigest := (ok.inj h).trans (ok.inj h').symm
  rw [length_map, length_map] at hdigest
  exact scopeSetMaterial_injective
    (material_eq_of_digest_eq hfree (.scopeSet hscopes) (.scopeSet hothers) hdigest)

omit hfree

end Digests

end Abbey.Conversation
