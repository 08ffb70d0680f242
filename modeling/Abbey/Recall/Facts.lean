import Mathlib.Data.List.Destutter
import Mathlib.Data.List.Sort
import Abbey.Recall.Store

/-!
# Facts over a store

`Recall` of `extensions/bot/src/wdbx.rs`: the facts that the bot remembers
about the members of a guild.  A fact is a vector of the store and a row of
its map under `mem:GUILD:ID`, with the id of the vector.

`text_embedding`, `cosine`, the order of scores and the JSON text of a
record are parameters.  A binary search in an ascending list is membership
(`guildIds_ascending`).
-/

namespace Abbey.Recall

open Abbey.Lib
open WdbxStore

variable {F : Type}

/-- `FactRecord`: the value of the row of a fact. -/
structure FactRecord where
  user : String
  text : String
  at_ : Nat
  deriving DecidableEq

/-- What `Recall` uses beside the store: `text_embedding`, `cosine`, whether
the first score is greater, and `serde_json` for a record. -/
structure Embedder (F : Type) where
  embed : String → List F
  cosine : List F → List F → F
  greater : F → F → Bool
  zero : F
  one : F
  factText : FactRecord → String
  readFact : String → Option FactRecord

/-- `RecalledFact`. -/
structure RecalledFact (F : Type) where
  id : Nat
  user : String
  text : String
  at_ : Nat
  score : F

/-! ## Keys -/

/-- `str::parse::<u64>`: an optional plus and decimal digits. -/
def parseU64 (cs : List Char) : Option Nat :=
  let digits := if cs.head? = some '+' then cs.tail else cs
  if digits ≠ [] ∧ digits.all Char.isDigit ∧ Nat.ofDigitChars 10 digits 0 ≤ u64Max then
    some (Nat.ofDigitChars 10 digits 0)
  else none

/-- `rsplit_once(':')`. -/
def rsplitOnce (cs : List Char) : Option (List Char × List Char) :=
  if ':' ∈ cs then
    some ((cs.rdropWhile (fun c => c ≠ ':')).dropLast, cs.rtakeWhile (fun c => c ≠ ':'))
  else none

def memPrefix : String := "mem:"

def factKeyPrefix (guild : String) : String := "mem:" ++ guild ++ ":"

def factKey (guild : String) (id : Nat) : String := "mem:" ++ guild ++ ":" ++ toString id

/-- The guild and the id in the part of a key after `mem:`. -/
def location (suffix : List Char) : Option (Nat × String) := do
  let (guild, id) ← rsplitOnce suffix
  let id ← parseU64 id
  some (id, String.ofList guild)

/-! ## Search -/

/-- The order of `search`: the greater score first, then the smaller id. -/
def ranks (embedder : Embedder F) (a b : Nat × F) : Bool :=
  embedder.greater a.2 b.2 || (!embedder.greater b.2 a.2 && decide (a.1 ≤ b.1))

def search (embedder : Embedder F) (store : WdbxStore F) (query : List F) (k : Nat)
    (filter : Nat → Bool) : List (Nat × F) :=
  let scored := (store.vectors.filter (fun row => filter row.1)).map
    (fun row => (row.1, embedder.cosine query row.2))
  (scored.insertionSort (fun a b => ranks embedder a b = true)).take k

/-! ## Facts -/

/-- `fact`. -/
def fact (embedder : Embedder F) (store : WdbxStore F) (guild : String) (id : Nat) (score : F) :
    Option (RecalledFact F) := do
  let value ← store.getKv (factKey guild id)
  let record ← embedder.readFact value
  some ⟨id, record.user, record.text, record.at_, score⟩

/-- `guild_ids`. -/
def guildIds (store : WdbxStore F) (guild : String) : List Nat :=
  let start := factKeyPrefix guild
  let ids := (store.kvWithPrefix start).filterMap
    (fun row => parseU64 (row.1.toList.drop start.length))
  (ids.insertionSort (· ≤ ·)).destutter (· ≠ ·)

/-- `remember`: the store and the id of the new fact. -/
def remember (embedder : Embedder F) (store : WdbxStore F) (guild user text : String)
    (at_ : Nat) : WdbxStore F × Nat :=
  let (store, id) := store.insertVector (embedder.embed text)
  (store.putKv (factKey guild id) (embedder.factText ⟨user, text, at_⟩), id)

/-- `recall_for_user`. -/
def recallForUser (embedder : Embedder F) (store : WdbxStore F) (guild user query : String)
    (k : Nat) : List (RecalledFact F) :=
  let ids := (guildIds store guild).filter
    (fun id => (fact embedder store guild id embedder.zero).any (fun f => f.user = user))
  (search embedder store (embedder.embed query) k (fun id => decide (id ∈ ids))).filterMap
    (fun hit => fact embedder store guild hit.1 hit.2)

/-- `forget`: the store and whether the fact existed in that guild. -/
def forget (store : WdbxStore F) (guild : String) (id : Nat) : WdbxStore F × Bool :=
  match store.removeKv (factKey guild id) with
  | (_, none) => (store, false)
  | (store, some _) => ((store.removeVector id).1, true)

/-- `facts_for_user`. -/
def factsForUser (embedder : Embedder F) (store : WdbxStore F) (guild user : String) :
    List (RecalledFact F) :=
  ((guildIds store guild).filterMap (fun id => fact embedder store guild id embedder.one)).filter
    (fun f => f.user = user)

/-- `all_memory_facts`. -/
def allMemoryFacts (embedder : Embedder F) (store : WdbxStore F) :
    List (String × RecalledFact F) :=
  let locations := (store.kvWithPrefix memPrefix).filterMap
    (fun row => location (row.1.toList.drop memPrefix.length))
  ((locations.insertionSort (fun a b => a.1 ≤ b.1)).destutter (· ≠ ·)).filterMap
    (fun place => (fact embedder store place.2 place.1 embedder.one).map (fun f => (place.2, f)))

/-- A fact of the caller of `reconcile_memory_facts`. -/
structure WantedFact where
  guild : String
  user : String
  text : String
  at_ : Nat
  deriving DecidableEq

def wantedOf (entry : String × RecalledFact F) : WantedFact :=
  ⟨entry.1, entry.2.user, entry.2.text, entry.2.at_⟩

/-- Remove a row with the prefix `mem:`, and the vector it names. -/
def removeMemoryKey (store : WdbxStore F) (key : String) : WdbxStore F :=
  let store' := (store.removeKv key).1
  match location (key.toList.drop memPrefix.length) with
  | some (id, _) => (store'.removeVector id).1
  | none => store'

/-- `reconcile_memory_facts`. -/
def reconcileMemoryFacts (embedder : Embedder F) (store : WdbxStore F)
    (wanted : List WantedFact) : WdbxStore F :=
  if (allMemoryFacts embedder store).map wantedOf = wanted then store
  else
    let cleared := ((store.kvWithPrefix memPrefix).map Prod.fst).foldl removeMemoryKey store
    wanted.foldl (fun store f => (remember embedder store f.guild f.user f.text f.at_).1) cleared

end Abbey.Recall
