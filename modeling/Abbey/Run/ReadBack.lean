import Abbey.Run.Recorded

/-!
# Reading a reply back

`readReply` puts a reply together again from its content events and checks
it against the stored message.  On the events that the store itself wrote
(`ContentSound`) none of its checks fails: `readReply_exact` for a reply,
`validateEmptySuccess_ok` for a turn without one.

The loop invariant is `ReadSoFar`.  Its two bounds are what the checks on
the number of events and on their JSON need: every delta has at least one
byte, and JSON text is at most six times as long as the text.
-/

namespace Abbey.Run

open Abbey.Lib List ContentEvent

variable {db : RunDb} {id : RunId} {cid : ConversationId} {deltas : List String}
variable {status : RunState}

/-! ## Joined deltas -/

theorem size_le_foldl (deltas : List String) (text : String) :
    text.utf8ByteSize ≤ (deltas.foldl (· ++ ·) text).utf8ByteSize := by
  induction deltas generalizing text with
  | nil => simp
  | cons delta deltas ih =>
    have hrest := ih (text ++ delta)
    rw [String.utf8ByteSize_append] at hrest
    simp only [foldl_cons]
    omega

theorem eq_nil_of_joined_eq_empty (h : ∀ delta ∈ deltas, delta ≠ "")
    (hempty : joined deltas = "") : deltas = [] := by
  cases deltas with
  | nil => rfl
  | cons delta deltas =>
    exfalso
    have hle : ("" ++ delta).utf8ByteSize ≤ (joined (delta :: deltas)).utf8ByteSize :=
      size_le_foldl deltas ("" ++ delta)
    rw [hempty, String.utf8ByteSize_append] at hle
    have hzero : delta.utf8ByteSize = 0 := by
      omega
    exact h delta mem_cons_self (String.utf8ByteSize_eq_zero_iff.mp hzero)

/-! ## The events of a turn -/

/-- An event as the store writes it. -/
structure Faithful (event : ContentEvent) : Prop where
  kind : event.kind = kindOf event.payload
  byteCount : event.byteCount = event.payload.byteCount
  valid : event.payload.validate = .ok ()

theorem ContentSound.faithful (h : ContentSound db id cid status deltas) {event : ContentEvent}
    (hevent : event ∈ contentOf db id) : Faithful event :=
  ⟨(h.rows event hevent).2.1, (h.rows event hevent).2.2.1, (h.rows event hevent).2.2.2⟩

/-- The query of the reader finds the events of the run in their order. -/
theorem ContentSound.contentRows_eq (h : ContentSound db id cid status deltas) :
    contentRows db cid id = contentOf db id := by
  have hfilter : db.contentEvents.rows.filter
      (fun e => e.conversationId = cid && e.runId = id) = contentOf db id := by
    unfold contentOf
    refine filter_congr (fun event hevent => ?_)
    by_cases hid : event.runId = id
    · have hmem : event ∈ contentOf db id := mem_filter.mpr ⟨hevent, by simp [hid]⟩
      simp [hid, (h.rows event hmem).1]
    · simp [hid]
  unfold contentRows
  rw [hfilter]
  exact List.Pairwise.insertionSort_eq (h.sorted.imp (fun hlt => Nat.le_of_lt hlt))

/-- The events of a succeeded turn: those of the sink, then the marker. -/
theorem ContentSound.split (h : ContentSound db id cid .succeeded deltas) :
    ∃ events marker, contentOf db id = events ++ [marker] ∧ marker.payload = .terminal .succeeded ∧
      (∀ event ∈ events, event.payload.isSink) ∧
      (events.map payload).filterMap V4ContentPayload.delta = deltas ∧
      ((events.map payload).filter V4ContentPayload.isNotice).length ≤ 1 := by
  obtain ⟨body, hbody, hsink, hdeltas, hnotices⟩ := h.payloads
  have hterminal : RunState.succeeded.isTerminal := rfl
  rw [hterminal, if_pos rfl] at hbody
  obtain ⟨events, last, hsplit, hevents, hlast⟩ := map_eq_append_iff.mp hbody
  obtain ⟨marker, rest, hmarker, hpayload, hrest⟩ := map_eq_cons_iff.mp hlast
  have hnil : rest = [] := map_eq_nil_iff.mp hrest
  subst hnil hmarker hevents
  refine ⟨events, marker, hsplit, hpayload, ?_, hdeltas, hnotices⟩
  intro event hevent
  exact hsink _ (mem_map.mpr ⟨event, hevent, rfl⟩)

/-! ## The loop -/

/-- What the loop over the events of a reply has read after `events` of
them, `notices` of which were no deltas. -/
structure ReadSoFar (scan : ReplyScan) (text : String) (events notices : Nat) : Prop where
  assistant : scan.assistant = text
  actualBytes : scan.actualBytes = text.utf8ByteSize
  marker : scan.legacyMarker = false
  encoding : scan.legacyEncoding = false
  oversized : scan.oversized = false
  terminal : scan.terminal = false
  count : scan.count = events
  few : events ≤ text.utf8ByteSize + notices
  parsed : scan.parsedBytes ≤ 64 * events + 6 * text.utf8ByteSize

theorem ReadSoFar.initial : ReadSoFar .initial "" 0 0 :=
  ⟨rfl, rfl, rfl, rfl, rfl, rfl, rfl, Nat.zero_le _, Nat.zero_le _⟩

theorem jsonBytes_textDelta (text : String) :
    text.utf8ByteSize < (V4ContentPayload.textDelta text).jsonBytes ∧
      (V4ContentPayload.textDelta text).jsonBytes ≤ 64 + 6 * text.utf8ByteSize := by
  have hbounds := jsonTextBytes_bounds text
  have hopen : "\x7b\"kind\":\"text_delta\",\"data\":\x7b\"text\":".utf8ByteSize = 36 := rfl
  have hclose : "\x7d\x7d".utf8ByteSize = 2 := rfl
  simp only [V4ContentPayload.jsonBytes, hopen, hclose]
  omega

theorem V4ContentPayload.size_of_validate
    (h : (V4ContentPayload.textDelta text).validate = .ok ()) :
    0 < text.utf8ByteSize ∧ text.utf8ByteSize ≤ maxV4DeltaBytes := by
  have hne := V4ContentPayload.ne_empty_of_validate h
  refine ⟨?_, ?_⟩
  · by_contra hpos
    exact hne (String.utf8ByteSize_eq_zero_iff.mp (by omega))
  · simp only [V4ContentPayload.validate, ensure_eq_ok, Bool.and_eq_true, decide_eq_true_eq] at h
    exact h.1.2

theorem jsonBytes_notice : (V4ContentPayload.notice .truncated).jsonBytes = 45 := rfl

theorem jsonBytes_succeeded : (V4ContentPayload.terminal .succeeded).jsonBytes = 48 := rfl

variable {budget : Nat} {scan : ReplyScan} {text : String} {events notices : Nat}
  {event : ContentEvent}

/-- A delta that fits is read whole. -/
theorem readEvent_delta (h : ReadSoFar scan text events notices) (hevent : Faithful event)
    (hpayload : event.payload = .textDelta delta)
    (hfits : (text ++ delta).utf8ByteSize ≤ budget) (hbudget : budget ≤ 24 * 1024)
    (hnotices : notices ≤ 1) : ∃ scan', readEvent budget scan event = .ok scan' ∧
      ReadSoFar scan' (text ++ delta) (events + 1) notices := by
  have hvalid := hevent.valid
  rw [hpayload] at hvalid
  obtain ⟨hpos, hsize⟩ := V4ContentPayload.size_of_validate hvalid
  obtain ⟨hlow, hhigh⟩ := jsonBytes_textDelta delta
  have hcount : event.byteCount = delta.utf8ByteSize := by
    rw [hevent.byteCount, hpayload]
    rfl
  have hkind : event.kind = .outputBounded := by
    rw [hevent.kind, hpayload]
    rfl
  have htotal : maxV4ContentBytes = 4194304 := rfl
  have hfew := h.few
  have hparsed := h.parsed
  have hlegacy : ¬ delta.utf8ByteSize = (V4ContentPayload.textDelta delta).jsonBytes := by omega
  rw [String.utf8ByteSize_append] at hfits
  -- the three checks on the event
  have hfewer : scan.count + 1 ≤ 65536 := by
    rw [h.count]
    omega
  have hbound : (V4ContentPayload.textDelta delta).jsonBytes ≤ maxV4DeltaBytes * 6 + 1024 := by
    omega
  have haggregate : scan.parsedBytes + (V4ContentPayload.textDelta delta).jsonBytes ≤
      maxV4ContentBytes * 6 + 1024 := by omega
  have hactual : scan.actualBytes + delta.utf8ByteSize ≤ maxV4ContentBytes := by
    rw [h.actualBytes]
    omega
  have hfitting : fitting delta (budget - scan.assistant.utf8ByteSize) = delta := by
    refine fitting_eq_self ?_
    rw [h.assistant]
    omega
  have hnotover : ¬ budget < scan.actualBytes + delta.utf8ByteSize := by
    rw [h.actualBytes]
    omega
  refine ⟨{ scan with
    count := scan.count + 1
    parsedBytes := scan.parsedBytes + (V4ContentPayload.textDelta delta).jsonBytes
    firstText := false
    actualBytes := scan.actualBytes + delta.utf8ByteSize
    assistant := scan.assistant ++ delta }, ?_, ?_⟩
  · unfold readEvent
    rw [hpayload]
    simp only [h.terminal, hfewer, hbound, haggregate, hvalid, orElse, ensure_true, ok_bind, hcount,
      hkind, hlegacy, readText, hactual, hfitting, hnotover, decide_true, decide_false,
      Bool.not_false, Bool.and_true, Bool.and_false, Bool.or_false, if_false, Bool.false_eq_true]
  · refine ⟨?_, ?_, h.marker, h.encoding, h.oversized, h.terminal, ?_, ?_, ?_⟩
    · show scan.assistant ++ delta = text ++ delta
      rw [h.assistant]
    · show scan.actualBytes + delta.utf8ByteSize = (text ++ delta).utf8ByteSize
      rw [h.actualBytes, String.utf8ByteSize_append]
    · show scan.count + 1 = events + 1
      rw [h.count]
    · rw [String.utf8ByteSize_append]
      omega
    · show scan.parsedBytes + (V4ContentPayload.textDelta delta).jsonBytes ≤
        64 * (events + 1) + 6 * (text ++ delta).utf8ByteSize
      rw [String.utf8ByteSize_append]
      omega

/-- A notice is no part of the reply. -/
theorem readEvent_notice (h : ReadSoFar scan text events notices)
    (hpayload : event.payload = .notice .truncated) (hsize : text.utf8ByteSize ≤ 24 * 1024)
    (hnotices : notices ≤ 1) :
    ∃ scan', readEvent budget scan event = .ok scan' ∧
      ReadSoFar scan' text (events + 1) (notices + 1) := by
  have hjson := jsonBytes_notice
  have htotal : maxV4ContentBytes = 4194304 := rfl
  have hfew := h.few
  have hparsed := h.parsed
  have hcount : scan.count + 1 ≤ 65536 := by
    rw [h.count]
    omega
  have hbound : (V4ContentPayload.notice .truncated).jsonBytes ≤ maxV4DeltaBytes * 6 + 1024 := by
    omega
  have haggregate : scan.parsedBytes + (V4ContentPayload.notice .truncated).jsonBytes ≤
      maxV4ContentBytes * 6 + 1024 := by omega
  have hvalid : (V4ContentPayload.notice .truncated).validate = .ok () := rfl
  refine ⟨{ scan with
    count := scan.count + 1
    parsedBytes := scan.parsedBytes + (V4ContentPayload.notice .truncated).jsonBytes }, ?_, ?_⟩
  · unfold readEvent
    rw [hpayload]
    simp only [h.terminal, hcount, hbound, haggregate, hvalid, orElse, ensure_true, ok_bind,
      decide_true, Bool.not_false, Bool.and_true]
  · refine ⟨h.assistant, h.actualBytes, h.marker, h.encoding, h.oversized, h.terminal, ?_, ?_, ?_⟩
    · show scan.count + 1 = events + 1
      rw [h.count]
    · omega
    · show scan.parsedBytes + (V4ContentPayload.notice .truncated).jsonBytes ≤
        64 * (events + 1) + 6 * text.utf8ByteSize
      omega

/-- The events of the sink put the reply together. -/
theorem foldlM_readEvent (hbudget : budget ≤ 24 * 1024) (es : List ContentEvent)
    (hes : ∀ event ∈ es, Faithful event ∧ event.payload.isSink)
    (h : ReadSoFar scan text events notices)
    (hfits : (((es.map payload).filterMap V4ContentPayload.delta).foldl (· ++ ·)
      text).utf8ByteSize ≤ budget)
    (hnotices : notices + ((es.map payload).filter V4ContentPayload.isNotice).length ≤ 1) :
    ∃ scan' notices', es.foldlM (readEvent budget) scan = .ok scan' ∧ notices' ≤ 1 ∧
      ReadSoFar scan' (((es.map payload).filterMap V4ContentPayload.delta).foldl
        (· ++ ·) text) (events + es.length) notices' := by
  induction es generalizing scan text events notices with
  | nil =>
    exact ⟨scan, notices, rfl, by simpa using hnotices, h⟩
  | cons event es ih =>
    obtain ⟨hfaithful, hsink⟩ := hes event mem_cons_self
    have hrest : ∀ event ∈ es, Faithful event ∧ event.payload.isSink :=
      fun event hevent => hes event (mem_cons_of_mem _ hevent)
    have hlength : events + (event :: es).length = events + 1 + es.length := by
      rw [length_cons]
      omega
    rw [hlength]
    simp only [foldlM_cons]
    cases hpayload : event.payload with
    | textDelta delta =>
      simp only [map_cons, hpayload, filterMap_cons, V4ContentPayload.delta, foldl_cons,
        filter_cons, V4ContentPayload.isNotice, Bool.false_eq_true, if_false] at hfits hnotices ⊢
      have hfirst := size_le_foldl
        ((es.map payload).filterMap V4ContentPayload.delta) (text ++ delta)
      obtain ⟨next, hread, hnext⟩ := readEvent_delta h hfaithful hpayload
        (Nat.le_trans hfirst hfits) hbudget (by omega)
      rw [hread, ok_bind]
      exact ih hrest hnext hfits hnotices
    | notice code =>
      have hcode : code = .truncated := by
        rw [hpayload] at hsink
        cases code <;> first | rfl | cases hsink
      subst hcode
      simp only [map_cons, hpayload, filterMap_cons, V4ContentPayload.delta, filter_cons,
        V4ContentPayload.isNotice, if_true, length_cons] at hfits hnotices ⊢
      have hfirst := size_le_foldl
        ((es.map payload).filterMap V4ContentPayload.delta) text
      obtain ⟨next, hread, hnext⟩ := readEvent_notice h hpayload (by omega) (by omega)
      rw [hread, ok_bind]
      exact ih hrest hnext hfits (by omega)
    | tool _ _ | usage _ _ | terminal _ =>
      rw [hpayload] at hsink
      cases hsink

/-- The marker of a succeeded turn ends the loop. -/
theorem readEvent_succeeded (limit : Nat) (h : ReadSoFar scan text events notices)
    (hpayload : event.payload = .terminal .succeeded) (hsize : text.utf8ByteSize ≤ 24 * 1024)
    (hnotices : notices ≤ 1) :
    ∃ scan', readEvent limit scan event = .ok scan' ∧ scan'.terminal ∧
      scan'.assistant = text ∧ scan'.actualBytes = text.utf8ByteSize ∧
      scan'.legacyMarker = false ∧ scan'.oversized = false := by
  have hjson := jsonBytes_succeeded
  have htotal : maxV4ContentBytes = 4194304 := rfl
  have hfew := h.few
  have hparsed := h.parsed
  have hcount : scan.count + 1 ≤ 65536 := by
    rw [h.count]
    omega
  have hbound : (V4ContentPayload.terminal .succeeded).jsonBytes ≤
      maxV4DeltaBytes * 6 + 1024 := by omega
  have haggregate : scan.parsedBytes + (V4ContentPayload.terminal .succeeded).jsonBytes ≤
      maxV4ContentBytes * 6 + 1024 := by omega
  have hvalid : (V4ContentPayload.terminal .succeeded).validate = .ok () := rfl
  refine ⟨{ scan with
    count := scan.count + 1
    parsedBytes := scan.parsedBytes + (V4ContentPayload.terminal .succeeded).jsonBytes
    terminal := true }, ?_, rfl, h.assistant, h.actualBytes, h.marker, h.oversized⟩
  unfold readEvent
  rw [hpayload]
  simp only [h.terminal, hcount, hbound, haggregate, hvalid, orElse, ensure_true, ok_bind,
    decide_true, Bool.not_false, Bool.and_true]

/-- A reply that fits is read back exactly. -/
theorem readReply_exact (h : ContentSound db id cid .succeeded deltas) {m : AssistantMessage}
    (hpreview : PreviewOf m (joined deltas)) (hfits : m.textBytes ≤ budget)
    (hbudget : budget ≤ 24 * 1024) :
    ∃ scan, readReply db cid id budget m.textBytes m.body = .ok scan ∧
      scan.assistant = joined deltas ∧ scan.oversized = false := by
  obtain ⟨es, marker, hsplit, hmarker, hsink, hdeltas, hnotices⟩ := h.split
  have hes : ∀ event ∈ es, Faithful event ∧ event.payload.isSink := by
    intro event hevent
    refine ⟨h.faithful ?_, hsink event hevent⟩
    rw [hsplit]
    exact mem_append_left _ hevent
  have hbytes := hpreview.bytes
  have hjoined : ((es.map payload).filterMap V4ContentPayload.delta).foldl
      (· ++ ·) "" = joined deltas := by
    rw [hdeltas]
    rfl
  obtain ⟨mid, notices, hfold, hone, hmid⟩ := foldlM_readEvent hbudget es hes ReadSoFar.initial
    (by rw [hjoined]; omega) (by omega)
  rw [hjoined] at hmid
  obtain ⟨last, hlast, hterminal, hassistant, hactual, hlegacy, hover⟩ :=
    readEvent_succeeded budget hmid hmarker (by omega) hone
  have hlength : (es ++ [marker]).length ≤ 65537 := by
    have hfew := hmid.few
    rw [length_append, length_singleton]
    omega
  have hagree : last.actualBytes = m.textBytes := hactual.trans hbytes.symm
  have hrestore : restoreMarker budget m.textBytes m.body last = last := by
    simp [restoreMarker, hlegacy]
  have hprefix : m.body.toList.isPrefixOf last.assistant.toList := by
    rw [List.isPrefixOf_iff_prefix, hassistant]
    exact hpreview.body
  refine ⟨last, ?_, hassistant, hover⟩
  unfold readReply
  rw [h.contentRows_eq, hsplit, take_of_length_le hlength, foldlM_append, hfold]
  simp only [ok_bind, foldlM_cons, foldlM_nil, hlast, pure_bind, hrestore, hterminal,
    hagree, hprefix, decide_true, Bool.true_or, Bool.and_true, ensure_true]

/-! ## A turn without a reply -/

theorem ContentSound.deltas_ne_empty (h : ContentSound db id cid status deltas) :
    ∀ delta ∈ deltas, delta ≠ "" := by
  obtain ⟨body, hbody, _, hdeltas, _⟩ := h.payloads
  intro delta hdelta
  rw [← hdeltas, mem_filterMap] at hdelta
  obtain ⟨payload, hpayload, hsome⟩ := hdelta
  have hmem : payload ∈ (contentOf db id).map ContentEvent.payload := by
    rw [hbody]
    exact mem_append_left _ hpayload
  obtain ⟨event, hevent, rfl⟩ := mem_map.mp hmem
  have hvalid := (h.faithful hevent).valid
  cases hkind : event.payload <;> rw [hkind] at hsome hvalid <;> cases hsome
  exact V4ContentPayload.ne_empty_of_validate hvalid

/-- A turn without a reply has its marker, and at most one notice. -/
theorem ContentSound.silent (h : ContentSound db id cid .succeeded deltas)
    (hempty : joined deltas = "") :
    ∃ marker, marker.payload = .terminal .succeeded ∧ (contentOf db id = [marker] ∨
      ∃ notice, notice.payload = .notice .truncated ∧ contentOf db id = [notice, marker]) := by
  obtain ⟨es, marker, hsplit, hmarker, hsink, hdeltas, hnotices⟩ := h.split
  have hnone : deltas = [] := eq_nil_of_joined_eq_empty h.deltas_ne_empty hempty
  rw [hnone, filterMap_eq_nil_iff] at hdeltas
  have hnotice : ∀ event ∈ es, event.payload = .notice .truncated := by
    intro event hevent
    have hdelta := hdeltas event.payload (mem_map.mpr ⟨event, hevent, rfl⟩)
    have hpayload := hsink event hevent
    cases hkind : event.payload with
    | textDelta _ =>
      rw [hkind] at hdelta
      cases hdelta
    | notice code =>
      rw [hkind] at hpayload
      cases code <;> first | rfl | cases hpayload
    | tool _ _ | usage _ _ | terminal _ =>
      rw [hkind] at hpayload
      cases hpayload
  have hlength : es.length ≤ 1 := by
    have hall : (es.map payload).filter V4ContentPayload.isNotice = es.map payload := by
      refine filter_eq_self.mpr (fun payload hpayload => ?_)
      obtain ⟨event, hevent, rfl⟩ := mem_map.mp hpayload
      rw [hnotice event hevent]
      rfl
    rw [hall, length_map] at hnotices
    exact hnotices
  refine ⟨marker, hmarker, ?_⟩
  match es, hlength with
  | [], _ => exact .inl hsplit
  | [notice], _ => exact .inr ⟨notice, hnotice notice mem_cons_self, hsplit⟩

theorem emptyStep_succeeded {scan : EmptyScan} (hevent : Faithful event)
    (hpayload : event.payload = .terminal .succeeded) (hopen : scan.terminal = false)
    (hindex : scan.index < 3) :
    emptyStep scan event = .ok { scan with terminal := true, index := scan.index + 1 } := by
  have hkind : event.kind = .completed := by
    rw [hevent.kind, hpayload]
    rfl
  have hcount : event.byteCount = (V4ContentPayload.terminal .succeeded).jsonBytes := by
    rw [hevent.byteCount, hpayload]
    rfl
  have hsmall : (V4ContentPayload.terminal .succeeded).jsonBytes ≤ 1024 := by
    rw [jsonBytes_succeeded]
    decide
  have hvalid : (V4ContentPayload.terminal .succeeded).validate = .ok () := rfl
  unfold emptyStep
  rw [hpayload]
  simp only [hopen, hindex, hsmall, hvalid, hcount, hkind, orElse, ensure_true, ok_bind,
    decide_true, Bool.not_false, Bool.and_true]

theorem emptyStep_notice {scan : EmptyScan} (hevent : Faithful event)
    (hpayload : event.payload = .notice .truncated) (hopen : scan.terminal = false)
    (hindex : scan.index < 3) (hfirst : scan.notice = false) :
    emptyStep scan event = .ok { scan with notice := true, index := scan.index + 1 } := by
  have hkind : event.kind = .outputBounded := by
    rw [hevent.kind, hpayload]
    rfl
  have hcount : event.byteCount = (V4ContentPayload.notice .truncated).jsonBytes := by
    rw [hevent.byteCount, hpayload]
    rfl
  have hsmall : (V4ContentPayload.notice .truncated).jsonBytes ≤ 1024 := by
    rw [jsonBytes_notice]
    decide
  have hvalid : (V4ContentPayload.notice .truncated).validate = .ok () := rfl
  unfold emptyStep
  rw [hpayload]
  simp only [hopen, hindex, hsmall, hvalid, hcount, hkind, hfirst, orElse, ensure_true, ok_bind,
    decide_true, Bool.not_false, Bool.and_true]

theorem validateEmptySuccess_ok (h : ContentSound db id cid .succeeded deltas)
    (hempty : joined deltas = "") : validateEmptySuccess db cid id = .ok () := by
  obtain ⟨marker, hmarker, hone | ⟨notice, hnotice, htwo⟩⟩ := h.silent hempty
  · have hfaithful : Faithful marker := h.faithful (by simp [hone])
    unfold validateEmptySuccess
    rw [h.contentRows_eq, hone]
    simp [emptyStep_succeeded hfaithful hmarker]
  · have hfaithful : Faithful marker := h.faithful (by simp [htwo])
    have hfirst : Faithful notice := h.faithful (by simp [htwo])
    unfold validateEmptySuccess
    rw [h.contentRows_eq, htwo]
    simp [emptyStep_notice hfirst hnotice, emptyStep_succeeded hfaithful hmarker]

end Abbey.Run
