import Abbey.Authority.SingleUse

/-!
# Single use across restarts

A command of the authority upholds `V3RuntimeAuthority.Sound` at each of its
durable steps, so a process that dies between two of them leaves a sound
state, and so does the restart after it.  Only `InvokeTool` asks for
something: `Plain` leaves out the calls that a restart would not recognise.
-/

namespace Abbey.Authority

open Abbey.Lib Abbey.Run Abbey.Tool Abbey.Daemon V3RuntimeAuthority V3RuntimeAuthority

variable {host : Host} {C : Capability} {s t : V3RuntimeAuthority}

/-- What a command has to meet.  The identifier of a call does not look like
a secret; where its tool runs without an approval, the identifier is not that
of an approval that the process has forgotten. -/
def V3Command.Plain (host : Host) (s : V3RuntimeAuthority) : V3Command → Prop
  | .invokeTool call => looksSecret call.callId = false ∧
    ∀ tool ∈ host.tools.find? (fun tool => tool.toolId = call.toolId),
      tool.route ≠ .approvalRequired → Known call.callId s
  | .approveTool _ | .denyTool _ | .cancelTool _ => True

def Event.Plain (host : Host) (s : V3RuntimeAuthority) : Event → Prop
  | .command issued _ | .crash issued _ _ _ => issued.Plain host s
  | .restart _ => True

instance (k : String) (s : V3RuntimeAuthority) : Decidable (Known k s) :=
  inferInstanceAs (Decidable (_ ∨ _))

instance (s : V3RuntimeAuthority) : (command : V3Command) → Decidable (command.Plain host s)
  | .invokeTool _ => inferInstanceAs (Decidable (_ ∧ _))
  | .approveTool _ | .denyTool _ | .cancelTool _ => inferInstanceAs (Decidable True)

instance (s : V3RuntimeAuthority) : (event : Event) → Decidable (event.Plain host s)
  | .command issued _ | .crash issued _ _ _ => inferInstanceAs (Decidable (issued.Plain host s))
  | .restart _ => inferInstanceAs (Decidable True)

section Commands

variable {env : Env}

theorem upholds_invokeTool (C : Capability) {call : V3ToolCall} :
    Upholds Sound (fun s => s.Sound ∧ (V3Command.invokeTool call).Plain host s)
      (invokeTool host env call) (fun _ => Sound) := by
  refine (upholds_required (fun _ hs => hs.1)).bind (fun _ => ?_)
  refine Upholds.bind (Q := fun tool s => (s.Sound ∧ looksSecret call.callId = false) ∧
      (tool.route ≠ .approvalRequired → Known call.callId s)) ?_ (fun tool => ?_)
  · refine upholds_lift (fun _ hs => hs.1) (fun s tool hs hfound => ?_)
    exact ⟨⟨hs.1, hs.2.1⟩, hs.2.2 tool (Option.mem_def.mpr (required_eq_ok.mp hfound))⟩
  refine (upholds_succeedOr (fun _ hs => hs.1.1)).bind (fun _ => ?_)
  by_cases hroute : tool.route = .approvalRequired
  · simp only [if_pos hroute]
    refine (upholds_succeedOr (fun _ hs => hs.1.1.1)).bind (fun _ => ?_)
    refine ⟨fun s t hs hcrash => ?_, fun s a t hs hends => ?_⟩
    · exact (upholds_invokeApproved C hs.1.1.1.2).crash s t hs.1.1.1.1 hcrash
    · exact (upholds_invokeApproved C hs.1.1.1.2).ends s a t hs.1.1.1.1 hends
  · simp only [if_neg hroute]
    refine ⟨fun s t hs hcrash => ?_, fun s a t hs hends => ?_⟩
    · exact (upholds_invokeReadOnly hs.1.1.2).crash s t ⟨hs.1.1.1, hs.1.2 hroute⟩ hcrash
    · exact (upholds_invokeReadOnly hs.1.1.2).ends s a t ⟨hs.1.1.1, hs.1.2 hroute⟩ hends

/-- A command that decides upon an approval which is there. -/
theorem upholds_answer (C : Capability) {source : Source}
    {f : Nat → ToolDb → Except StoreError (ToolDb × ToolApprovalRecord)}
    {checked : Except HandlerFailure Unit}
    (hwrites : ∀ now db db' record, f now db = .ok (db', record) → NoNew db db' ∧ ∃ observed,
      Written C db source db' observed) :
    Upholds Sound Sound
      (do
        .lift checked
        let now ← .lift (required env.now runtimeFailure)
        let record ← storeCallOr mapApprovalStoreError env.writeFails (f now)
        pure (.toolApprovalStatus (approvalStatus record)) : Command V3Event)
      (fun _ => Sound) := by
  refine (upholds_required (fun _ hs => hs)).bind (fun _ => ?_)
  refine (upholds_required (fun _ hs => hs)).bind (fun now => ?_)
  refine Upholds.bind (Q := fun _ => Sound) ?_ (fun record => ?_)
  · refine upholds_storeCallOr (fun _ hs => hs) (fun s db record hs hok => ?_)
    obtain ⟨hnew, observed, hwritten⟩ := hwrites now s.db db record hok
    have hsound := hs.noNew (.of_written hs.checked hwritten) hnew
    exact ⟨hsound, hsound⟩
  · exact upholds_pure (fun _ hs => hs) (fun _ hs => hs)

theorem upholds_decide (C : Capability) {decision : V3ToolDecision}
    {outcome : ToolApprovalDecision} :
    Upholds Sound Sound (decide env decision outcome) (fun _ => Sound) :=
  upholds_answer C (f := fun now db =>
    decideToolApproval db decision.callId decision.callDigest decision.decisionId outcome now)
    (fun _ _ _ _ hok => ⟨noNew_decide hok, _, decideToolApproval_writes hok⟩)

theorem upholds_cancel (C : Capability) {action : V3Action} :
    Upholds Sound Sound (cancel env action) (fun _ => Sound) :=
  upholds_answer C (f := fun now db =>
    cancelToolApproval db action.resourceId action.operationId now)
    (fun _ _ _ _ hok => ⟨noNew_cancel hok, _, cancelToolApproval_writes hok⟩)

/-- Every durable step of a plain command leaves a sound state. -/
theorem V3Command.sound_of_crash (C : Capability) {command : V3Command} (hs : s.Sound)
    (hplain : command.Plain host s) (hcrash : Crash (command.run host env) s t) : t.Sound := by
  cases command with
  | invokeTool call => exact (upholds_invokeTool C).crash s t ⟨hs, hplain⟩ hcrash
  | approveTool decision | denyTool decision => exact (upholds_decide C).crash s t hs hcrash
  | cancelTool action => exact (upholds_cancel C).crash s t hs hcrash

end Commands

/-! ## Runs -/

theorem V3RuntimeAuthority.Sound.step {event : Event} (hs : s.Sound)
    (hplain : event.Plain host s) (hstep : step host C s event = some t) : t.Sound := by
  cases event with
  | command command env =>
    cases hstep
    exact V3Command.sound_of_crash C hs hplain (crash_final _ s)
  | crash command env steps reopened =>
    have hcut := V3Command.sound_of_crash C hs hplain (crash_cut steps (command.run host env) s)
    exact hcut.restart hstep
  | restart reopened => exact hs.restart hstep

theorem sound_initial : initial.Sound where
  once := List.nodup_nil
  preceded before effect after h := by
    have hlength := congrArg List.length h
    simp [initial] at hlength
  executed k hk := by simp [initial, effects] at hk
  invalidated k record hk := by simp [initial, effects] at hk
  checked := by simp [initial, Checked, ToolDb.empty]

/-- Every call has at most one effect over the whole execution, and the audit
named the call before it. -/
theorem call_ids_single_use (h : Steps (step host C) (fun s event => event.Plain host s)
    V3RuntimeAuthority.initial s) :
    ((effects s.log).map Effect.callId).Nodup ∧
      ∀ before effect after, s.log = before ++ .effect effect :: after →
        effect.callId ∈ recovered before := by
  have hsound : s.Sound :=
    h.invariant (fun _ _ _ hs hplain hstep => hs.step hplain hstep) sound_initial
  exact ⟨hsound.once, hsound.preceded⟩

/-! ## Two runs -/

/-- A read-only tool and the mutating one. -/
def sampleHost : Host where
  tools := [⟨"status", .directReadOnly, fun _ => true, fun _ => .allow⟩,
    ⟨"abbey_memory_mark_obsolete", .approvalRequired, fun _ => true, fun _ => .requireConfirmation⟩]
  asStr
    | .allow => "allow"
    | .deny => "deny"
    | .requireConfirmation => "require_confirmation"
  digest _ := sampleDigest.hex
  approvalDigest _ := sampleDigest.hex

/-- Nothing fails. -/
def sampleEnv (now : Nat) : Env where
  now := some now
  later := some (now + 1)
  executionId := "execution-1"
  readFails := false
  writeFails := false
  prepareFails := false
  authorizationFails := false
  completeFails := false
  outcomeFails := false
  output := some ⟨true, some (.object [])⟩
  late := false
  invalidated := true

def statusCall (callId : String) (now : Nat) : Event :=
  .command (.invokeTool ⟨"status", callId, .object []⟩) (sampleEnv now)

def obsoleteCall (now : Nat) : Event :=
  .command (.invokeTool ⟨"abbey_memory_mark_obsolete", "call-1",
    .object [("record_id", .string "record-1")]⟩) (sampleEnv now)

/-- An approval waits when the process is started again and a call comes
twice. -/
def sampleEvents : List Event :=
  [obsoleteCall 1, statusCall "call-2" 2, .restart none, statusCall "call-2" 3]

theorem call_ids_single_use_sample : ∃ s : V3RuntimeAuthority,
    effects s.log = [.executed "call-2"] ∧
      ((effects s.log).map Effect.callId).Nodup ∧
      ∀ before effect after, s.log = before ++ .effect effect :: after →
        effect.callId ∈ recovered before := by
  have hruns : (run (fun s event => if Decidable.decide (event.Plain sampleHost s) then
      step sampleHost sampleCapability s event else none) initial
        sampleEvents).any (fun s => effects s.log = [.executed "call-2"]) = true := by
    decide +kernel
  obtain ⟨s, hs, heffects⟩ := (Option.any_eq_true _ _).mp hruns
  have hsteps : Steps (step sampleHost sampleCapability) (fun s event => event.Plain sampleHost s)
      initial s :=
    steps_of_checked_run (fun _ _ => of_decide_eq_true) hs
  exact ⟨s, of_decide_eq_true heffects, call_ids_single_use hsteps⟩

/-- The audit has no identifier that looks like a secret, so the tool runs
twice. -/
theorem secret_call_id_used_twice : ∃ s : V3RuntimeAuthority,
    Steps (step sampleHost sampleCapability) anyStep V3RuntimeAuthority.initial s ∧
      ¬ ((effects s.log).map Effect.callId).Nodup := by
  have hruns : (run (step sampleHost sampleCapability) initial
      [statusCall "sk-1" 1, .restart none, statusCall "sk-1" 2]).any
        (fun s => (effects s.log).map Effect.callId = ["sk-1", "sk-1"]) = true := by
    decide +kernel
  obtain ⟨s, hs, heffects⟩ := (Option.any_eq_true _ _).mp hruns
  refine ⟨s, steps_of_run hs, ?_⟩
  rw [of_decide_eq_true heffects]
  simp

end Abbey.Authority
