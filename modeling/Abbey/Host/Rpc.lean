import Abbey.Lib.Checked
import Abbey.Lib.JsonText

/-!
# JSON-RPC messages of the tool server

A document becomes a message, or a failure that names the id when the document
has a usable one.  The depth of a document is measured with a stack of its own
and the walk ends at the first node below the limit: `maxDepth_lt_jsonDepth` says
that this is the comparison with the depth of the tree.
-/

namespace Abbey.Host

open Abbey.Lib List

/-- The codes of errors: the standard ones and two of its own. -/
inductive Code where
  | parseError
  | invalidRequest
  | methodNotFound
  | invalidParams
  | internalError
  | requestTooLarge
  | requestTimeout

def Code.value : Code → Int
  | .parseError => -32700
  | .invalidRequest => -32600
  | .methodNotFound => -32601
  | .invalidParams => -32602
  | .internalError => -32603
  | .requestTooLarge => -32001
  | .requestTimeout => -32002

def maxRequestBytes : Nat := 256 * 1024
def maxResponseBytes : Nat := 1024 * 1024
def maxJsonDepth : Nat := 16
def maxBatchSize : Nat := 1
def maxToolNameBytes : Nat := 64
def maxProtocolVersionBytes : Nat := 32

/-- A value as the parser and the tools give it. -/
abbrev Document := { v : Value // v.Proper }

/-- A message; one without an id is a notification. -/
structure Message where
  id : Option Value
  method : String
  params : Value

/-- Why a document is not a message. -/
structure ParseFailure where
  code : Code
  message : String
  id : Option Value

/-- A field of a document that may not be an object. -/
def get (v : Value) (key : String) : Option Value := v.asObject.bind (·.lookup key)

def isValidId : Value → Bool
  | .string _ | .number _ | .null => true
  | _ => false

/-- The id of an object; `null` counts as none. -/
def parseId (fields : List (String × Value)) : Except ParseFailure (Option Value) :=
  match fields.lookup "id" with
  | none => .ok none
  | some .null => .ok none
  | some id =>
    if isValidId id then .ok (some id)
    else .error ⟨.invalidRequest, "id must be a string, number, or null", none⟩

def parseVersion (fields : List (String × Value)) (id : Option Value) : Except ParseFailure Unit :=
  ensure (fields.lookup "jsonrpc" = some (.string "2.0"))
    ⟨.invalidRequest, "missing or unsupported `jsonrpc` version (expected \"2.0\")", id⟩

def parseMethod (fields : List (String × Value)) (id : Option Value) :
    Except ParseFailure String :=
  match fields.lookup "method" with
  | some (.string method) => .ok method
  | _ => .error ⟨.invalidRequest, "missing or non-string `method`", id⟩

def parseParams (fields : List (String × Value)) (id : Option Value) :
    Except ParseFailure Value :=
  match fields.lookup "params" with
  | none => .ok (.object [])
  | some .null => .ok (.object [])
  | some (.object params) => .ok (.object params)
  | some _ => .error ⟨.invalidParams, "`params` must be an object when present", id⟩

def parseMessage (document : Value) : Except ParseFailure Message :=
  match document with
  | .array _ =>
    .error ⟨.invalidRequest, s!"JSON-RPC batching is not accepted (max batch size {maxBatchSize})",
      none⟩
  | .object fields => do
    let id ← parseId fields
    parseVersion fields id
    let method ← parseMethod fields id
    let params ← parseParams fields id
    return ⟨id, method, params⟩
  | _ => .error ⟨.invalidRequest, "request must be a JSON object", none⟩

/-! ## Depth -/

mutual

/-- The depth of a tree; a scalar has depth one. -/
def depth : Value → Nat
  | .array items => depthItems items + 1
  | .object fields => depthFields fields + 1
  | _ => 1

def depthItems : List Value → Nat
  | [] => 0
  | v :: vs => max (depth v) (depthItems vs)

def depthFields : List (String × Value) → Nat
  | [] => 0
  | (_, v) :: fields => max (depth v) (depthFields fields)

end

mutual

/-- The nodes of a tree. -/
def nodes : Value → Nat
  | .array items => nodesItems items + 1
  | .object fields => nodesFields fields + 1
  | _ => 1

def nodesItems : List Value → Nat
  | [] => 0
  | v :: vs => nodes v + nodesItems vs

def nodesFields : List (String × Value) → Nat
  | [] => 0
  | (_, v) :: fields => nodes v + nodesFields fields

end

/-- The nodes under one. -/
def children : Value → List Value
  | .array items => items
  | .object fields => fields.map Prod.snd
  | _ => []

/-- What is still to visit, by its number of nodes. -/
def pending (stack : List (Value × Nat)) : Nat := (stack.map (fun node => nodes node.1)).sum

theorem pending_children (v : Value) (d : Nat) :
    pending ((children v).map (fun child => (child, d))) + 1 = nodes v := by
  have hitems : ∀ items : List Value,
      pending (items.map (fun child => (child, d))) = nodesItems items := by
    intro items
    induction items with
    | nil => rfl
    | cons v vs ih =>
      rw [nodesItems, ← ih]
      rfl
  have hfields : ∀ fields : List (String × Value),
      pending ((fields.map Prod.snd).map (fun child => (child, d))) = nodesFields fields := by
    intro fields
    induction fields with
    | nil => rfl
    | cons field fields ih =>
      rw [nodesFields, ← ih]
      rfl
  cases v with
  | array items =>
    rw [nodes, ← hitems items]
    rfl
  | object fields =>
    rw [nodes, ← hfields fields]
    rfl
  | _ => simp [children, nodes, pending]

theorem pending_append (xs ys : List (Value × Nat)) :
    pending (xs ++ ys) = pending xs + pending ys := by
  simp [pending]

theorem pending_reverse (xs : List (Value × Nat)) : pending xs.reverse = pending xs := by
  simp [pending]

/-- The walk: the top of the stack is its first element. -/
def visit (stack : List (Value × Nat)) (deepest : Nat) : Nat :=
  match stack with
  | [] => deepest
  | (node, d) :: rest =>
    if max deepest d > maxJsonDepth then max deepest d
    else visit (((children node).map (fun child => (child, d + 1))).reverse ++ rest)
      (max deepest d)
termination_by pending stack
decreasing_by
  rw [pending_append, pending_reverse]
  have hnode := pending_children node (d + 1)
  have hstack : pending ((node, d) :: rest) = nodes node + pending rest := rfl
  omega

def jsonDepth (v : Value) : Nat := visit [(v, 1)] 0

/-- A tree is deeper than a bound when it is at its root or under a child. -/
theorem lt_depth_iff (v : Value) (n : Nat) :
    n < depth v ↔ n < 1 ∨ ∃ child ∈ children v, n < depth child + 1 := by
  have hitems : ∀ items : List Value, ∀ m, m < depthItems items ↔ ∃ v ∈ items, m < depth v := by
    intro items m
    induction items with
    | nil => simp [depthItems]
    | cons v vs ih => simp [depthItems, ih]
  have hfields : ∀ fields : List (String × Value), ∀ m,
      m < depthFields fields ↔ ∃ v ∈ fields.map Prod.snd, m < depth v := by
    intro fields m
    induction fields with
    | nil => simp [depthFields]
    | cons field fields ih =>
      rw [depthFields, lt_max_iff, ih, map_cons, exists_mem_cons_iff]
  cases n with
  | zero =>
    have hpos : 0 < depth v := by cases v <;> simp [depth]
    simp [hpos]
  | succ n =>
    cases v with
    | array items => simp [depth, children, hitems]
    | object fields => simp [depth, children, hfields]
    | _ => simp [depth, children]

/-- What the walk finds beyond the limit. -/
theorem maxDepth_lt_visit (stack : List (Value × Nat)) (deepest : Nat) :
    maxJsonDepth < visit stack deepest ↔
      maxJsonDepth < deepest ∨ ∃ node ∈ stack, maxJsonDepth + 1 < depth node.1 + node.2 := by
  fun_induction visit stack deepest with
  | case1 deepest => simp
  | case2 deepest v d rest hdeep =>
    have hpos : 0 < depth v := by cases v <;> simp [depth]
    refine iff_of_true hdeep ?_
    rcases lt_max_iff.mp hdeep with hdeepest | hd
    · exact .inl hdeepest
    · exact .inr ⟨(v, d), mem_cons_self, show maxJsonDepth + 1 < depth v + d by omega⟩
  | case3 deepest v d rest hdeep ih =>
    have hd : d ≤ maxJsonDepth := (le_max_right _ _).trans (Nat.le_of_not_lt hdeep)
    have hnode : maxJsonDepth + 1 < depth v + d ↔
        ∃ child ∈ children v, maxJsonDepth + 1 < depth child + (d + 1) := by
      have hv := lt_depth_iff v (maxJsonDepth + 1 - d)
      rw [Nat.sub_lt_iff_lt_add (by omega)] at hv
      rw [hv]
      constructor
      · rintro (hlt | ⟨child, hchild, hlt⟩)
        · omega
        · exact ⟨child, hchild, by omega⟩
      · rintro ⟨child, hchild, hlt⟩
        exact .inr ⟨child, hchild, by omega⟩
    rw [ih, exists_mem_cons_iff, hnode]
    constructor
    · rintro (hlt | ⟨node, hmem, hlt⟩)
      · exact absurd hlt hdeep
      · rcases mem_append.mp hmem with hpushed | hrest
        · obtain ⟨child, hchild, rfl⟩ := mem_map.mp (mem_reverse.mp hpushed)
          exact .inr (.inl ⟨child, hchild, hlt⟩)
        · exact .inr (.inr ⟨node, hrest, hlt⟩)
    · rintro (hlt | ⟨child, hchild, hlt⟩ | ⟨node, hrest, hlt⟩)
      · exact .inl (lt_max_of_lt_left hlt)
      · exact .inr ⟨(child, d + 1), mem_append_left _ (mem_reverse.mpr
          (mem_map_of_mem hchild)), hlt⟩
      · exact .inr ⟨node, mem_append_right _ hrest, hlt⟩

/-- The comparison with the limit is the one of the tree. -/
theorem maxDepth_lt_jsonDepth (v : Value) :
    maxJsonDepth < jsonDepth v ↔ maxJsonDepth < depth v := by
  rw [jsonDepth, maxDepth_lt_visit]
  simp

/-! ## Responses -/

def ofInt (n : Int) : Value :=
  .number (if 0 ≤ n then .posInt n.toNat else .other (toString n))

def success (id result : Value) : Value :=
  .object [("id", id), ("jsonrpc", .string "2.0"), ("result", result)]

def error (id : Option Value) (code : Code) (message : String) : Value :=
  .object [("error", .object [("code", ofInt code.value), ("message", .string message)]),
    ("id", id.getD .null), ("jsonrpc", .string "2.0")]

end Abbey.Host
