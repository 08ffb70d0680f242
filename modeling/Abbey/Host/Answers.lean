import Abbey.Host.Server
import Abbey.Lib.JsonReplace

/-!
# Responses as lines

Secrets are replaced in the text of a response.  Where every occurrence of a secret
stands on plain characters of a string (`Inside`), this is a replacement in the
strings (`redactWith_print`), and a line then meets what is asked of it exactly
when no string keeps a secret (`meets_iff`).

* `answers`: every request with an id is answered, and its line meets what is
  asked of it exactly when the request is not too deep and the line is fit.
* A secret with a character that JSON escapes is not found: `leaks`.
-/

namespace Abbey.Host

open Abbey.Lib Value List String

variable {document : Document} {fields : List (String × Value)} {secret : List Char}
  {frame : List UInt8} {message : Message} {key : String} {v : Value}

/-! ## Secrets in strings -/

/-- One secret replaced in the strings of a value, if its characters stand for
themselves there. -/
def redactValue (v : Value) (secret : List Char) : Value :=
  if bytes secret < minRedactableSecretBytes then v
  else if secret.all plain then mapStrings (inString secret redactionPlaceholder) v
  else v

/-- Every occurrence of a secret, when its turn comes, is on plain characters of
one string. -/
def Inside : List (List Char) → Value → Prop
  | [], _ => True
  | secret :: secrets, v =>
    (minRedactableSecretBytes ≤ bytes secret → Within secret (marks v)) ∧
      Inside secrets (redactValue v secret)

theorem ne_nil_of_long (h : ¬ bytes secret < minRedactableSecretBytes) : secret ≠ [] := by
  rintro rfl
  exact h (by decide)

theorem plain_redactionPlaceholder : ∀ c ∈ redactionPlaceholder, plain c :=
  all_eq_true.mp rfl

theorem redactOne_print (h : minRedactableSecretBytes ≤ bytes secret → Within secret (marks v)) :
    redactOne v.print secret = (redactValue v secret).print := by
  rw [redactOne_eq, redactValue]
  split_ifs with hshort hplain
  · rfl
  · rw [all_eq_true] at hplain
    exact replace_print (ne_nil_of_long hshort) hplain plain_redactionPlaceholder v
      (h (Nat.le_of_not_lt hshort))
  · rw [all_eq_true] at hplain
    exact replace_eq_self (not_infix_of_escaped hplain (h (Nat.le_of_not_lt hshort)))

/-- The pass over the text is a pass over the strings. -/
theorem redactWith_print (h : Inside secrets v) :
    redactWith v.print secrets = (secrets.foldl redactValue v).print := by
  induction secrets generalizing v with
  | nil => rfl
  | cons secret secrets ih =>
    show redactWith (redactOne v.print secret) secrets = _
    rw [redactOne_print h.1, ih h.2]
    rfl

theorem proper_redactValue (h : v.Proper) (secret : List Char) : (redactValue v secret).Proper := by
  unfold redactValue
  split_ifs with hshort hplain
  · exact h
  · exact proper_mapStrings h
  · exact h

theorem proper_redacted (h : v.Proper) (secrets : List (List Char)) :
    (secrets.foldl redactValue v).Proper := by
  induction secrets generalizing v with
  | nil => exact h
  | cons secret secrets ih => exact ih (proper_redactValue h secret)

/-! ## Fields -/

theorem bytes_infix_le (h : a <:+: b) : bytes a ≤ bytes b := by
  obtain ⟨s, t, rfl⟩ := h
  rw [bytes_append, bytes_append]
  omega

/-- A short string is what only itself becomes. -/
theorem inString_eq_short (hlong : ¬ bytes secret < minRedactableSecretBytes)
    (hkey : bytes key.toList < minRedactableSecretBytes) (s : String) :
    inString secret redactionPlaceholder s = key ↔ s = key := by
  have hpat := ne_nil_of_long hlong
  by_cases hin : secret <:+: s.toList
  · have hput : redactionPlaceholder <:+: replace secret redactionPlaceholder s.toList :=
      infix_replace hpat hin
    refine iff_of_false ?_ ?_
    · rintro rfl
      rw [inString, toList_ofList] at hkey
      have hsize := bytes_infix_le hput
      have hplaceholder : bytes redactionPlaceholder = 10 := by decide
      have hmin : minRedactableSecretBytes = 8 := rfl
      omega
    · rintro rfl
      exact hlong (lt_of_le_of_lt (bytes_infix_le hin) hkey)
  · rw [inString, replace_eq_self hin, ofList_toList]

theorem lookup_mapStringsFields (h : ∀ s, f s = key ↔ s = key) (fields : List (String × Value)) :
    (mapStringsFields f fields).lookup key = (fields.lookup key).map (mapStrings f) := by
  induction fields with
  | nil => rfl
  | cons field fields ih =>
    obtain ⟨other, v⟩ := field
    rw [mapStringsFields, lookup_cons, lookup_cons, ih]
    by_cases hkey : other = key
    · rw [hkey, (h key).mpr rfl, beq_self_eq_true]
      rfl
    · have hother : f other ≠ key := fun heq => hkey ((h other).mp heq)
      rw [beq_false_of_ne (Ne.symm hkey), beq_false_of_ne (Ne.symm hother)]

theorem get_redactValue (hkey : bytes key.toList < minRedactableSecretBytes) (v : Value)
    (secret : List Char) :
    get (redactValue v secret) key = (get v key).map (fun field => redactValue field secret) := by
  by_cases hshort : bytes secret < minRedactableSecretBytes
  · simp [redactValue, hshort]
  · by_cases hplain : secret.all plain
    · have hredact : ∀ v, redactValue v secret = mapStrings (inString secret redactionPlaceholder) v := by
        intro v
        rw [redactValue, if_neg hshort, if_pos hplain]
      have hfield : (fun field => redactValue field secret) =
          mapStrings (inString secret redactionPlaceholder) := funext hredact
      rw [hfield, hredact]
      cases v with
      | object fields => exact lookup_mapStringsFields (inString_eq_short hshort hkey) fields
      | _ => rfl
    · simp [redactValue, hshort, hplain]

theorem get_redacted (hkey : bytes key.toList < minRedactableSecretBytes) (v : Value)
    (secrets : List (List Char)) :
    get (secrets.foldl redactValue v) key =
      (get v key).map (fun field => secrets.foldl redactValue field) := by
  induction secrets generalizing v with
  | nil => exact Option.map_id'.symm
  | cons secret secrets ih =>
    rw [foldl_cons, ih, get_redactValue hkey, Option.map_map]
    rfl

/-! ## What is asked of a line -/

/-- No decoded string of a value has a secret in it. -/
def Clean (secrets : List (List Char)) (v : Value) : Prop :=
  ∀ s ∈ strings v, ∀ secret ∈ secrets, ¬ secret <:+: s.toList

/-- The error that replaces a response that is too large. -/
def sizeError (id : Value) : Value :=
  error (some id) .internalError s!"response exceeds {maxResponseBytes} bytes"

/-- A line is one valid document of at most a MiB, with the id, with a result
exactly when the response has one, and without secrets. -/
def Meets (secrets : List (List Char)) (id response : Value) (line : List Char) : Prop :=
  ∃ v : Value, v.Proper ∧ line = v.print ∧ '\n' ∉ line ∧ bytes line ≤ maxResponseBytes ∧
    get v "id" = some id ∧
    ((get v "result").isSome = (get response "result").isSome ∨ v = sizeError id) ∧
    Clean secrets v

/-- The strings of the response keep no secret; where it is too large, the error
in its place has none and fits. -/
def Fit (secrets : List (List Char)) (id response : Value) : Prop :=
  if bytes (secrets.foldl redactValue response).print ≤ maxResponseBytes then
    Clean secrets (secrets.foldl redactValue response)
  else
    bytes (sizeError id).print ≤ maxResponseBytes ∧
      ∀ secret ∈ secrets, ¬ secret <:+: s!"response exceeds {maxResponseBytes} bytes".toList

/-- What an id says. -/
def idText : Value → List Char
  | .string s => s.toList
  | v => v.print

/-- An id as a request can have it. -/
def IsId (id : Value) : Prop := (∃ s, id = .string s) ∨ ∃ n, id = .number n

variable {secrets : List (List Char)} {id response : Value}

theorem inString_eq_self (h : ¬ secret <:+: s.toList) :
    inString secret redactionPlaceholder s = s := by
  rw [inString, replace_eq_self h, ofList_toList]

/-- An id without secrets stays. -/
theorem redacted_id (hid : IsId id) (h : ∀ secret ∈ secrets, ¬ secret <:+: idText id) :
    secrets.foldl redactValue id = id := by
  induction secrets with
  | nil => rfl
  | cons secret secrets ih =>
    rw [forall_mem_cons] at h
    have hone : redactValue id secret = id := by
      unfold redactValue
      rcases hid with ⟨s, rfl⟩ | ⟨n, rfl⟩
      · rw [mapStrings, inString_eq_self h.1]
        split_ifs <;> rfl
      · rw [mapStrings]
        · split_ifs <;> rfl
        all_goals simp
    rw [foldl_cons, hone, ih h.2]

theorem get_id_sizeError : get (sizeError id) "id" = some id := rfl

theorem proper_code (code : Code) : (ofInt code.value).Proper := by
  cases code <;> intro n hn <;> cases mem_singleton.mp hn <;> decide

theorem proper_error {id : Option Value} (hid : ∀ v ∈ id, v.Proper) (code : Code)
    (message : String) : (error id code message).Proper := by
  have hnumbers : numbers (error id code message) =
      numbers (ofInt code.value) ++ numbers (id.getD .null) := by
    simp [error, numbers, numbersFields]
  intro n hn
  rw [hnumbers, mem_append] at hn
  rcases hn with hcode | hin
  · exact proper_code code n hcode
  · cases id with
    | none => cases hin
    | some id => exact hid id rfl n hin

theorem proper_success (hid : id.Proper) (hresult : result.Proper) :
    (success id result).Proper := by
  have hnumbers : numbers (success id result) = numbers id ++ numbers result := by
    simp [success, numbers, numbersFields]
  intro n hn
  rw [hnumbers, mem_append] at hn
  exact hn.elim (hid n) (hresult n)

/-- A short string has no secret. -/
theorem clean_short {s : String} (hlong : minRedactableSecretBytes ≤ bytes secret)
    (hs : bytes s.toList < minRedactableSecretBytes) : ¬ secret <:+: s.toList :=
  fun hin => absurd (bytes_infix_le hin) (by omega)

theorem clean_sizeError (hlong : ∀ secret ∈ secrets, minRedactableSecretBytes ≤ bytes secret)
    (hid : IsId id) (h : ∀ secret ∈ secrets, ¬ secret <:+: idText id)
    (hmessage : ∀ secret ∈ secrets,
      ¬ secret <:+: s!"response exceeds {maxResponseBytes} bytes".toList) :
    Clean secrets (sizeError id) := by
  have hstrings : strings (sizeError id) = ["error", "code", "message",
      s!"response exceeds {maxResponseBytes} bytes", "id"] ++ strings id ++ ["jsonrpc", "2.0"] := by
    have hcode : strings (ofInt Code.internalError.value) = [] := by decide
    simp [sizeError, error, strings, stringsFields, hcode]
  intro s hs secret hsecret
  have hshort : ∀ key : String, bytes key.toList < minRedactableSecretBytes → s = key →
      ¬ secret <:+: s.toList := by
    rintro key hkey rfl
    exact clean_short (hlong secret hsecret) hkey
  rw [hstrings] at hs
  simp only [mem_append, mem_cons, not_mem_nil, or_false] at hs
  rcases hs with ((hs | hs | hs | hs | hs) | hs) | hs | hs
  · exact hshort _ (by decide) hs
  · exact hshort _ (by decide) hs
  · exact hshort _ (by decide) hs
  · rw [hs]
    exact hmessage secret hsecret
  · exact hshort _ (by decide) hs
  · rcases hid with ⟨t, rfl⟩ | ⟨n, rfl⟩
    · rw [strings, mem_singleton] at hs
      rw [hs]
      exact h secret hsecret
    · cases hs
  · exact hshort _ (by decide) hs
  · exact hshort _ (by decide) hs

theorem proper_of_get (h : v.Proper) (hget : get v key = some w) : w.Proper := by
  cases v with
  | object fields => exact proper_of_lookup h hget
  | _ => cases hget

variable {server : Server}

/-- The line where secrets occur only in strings. -/
theorem encodeFrame_eq (hget : get response "id" = some id)
    (hinside : Inside server.secrets response) :
    server.encodeFrame response =
      if bytes (server.secrets.foldl redactValue response).print > maxResponseBytes then
        (sizeError id).print
      else (server.secrets.foldl redactValue response).print := by
  unfold Server.encodeFrame
  rw [redactWith_print hinside, hget]
  rfl

/-- A response without an id does not meet what is asked. -/
theorem not_meets_of_null (hid : IsId id) (hproper : response.Proper)
    (hget : get response "id" = some .null) (hinside : Inside server.secrets response) :
    ¬ Meets server.secrets id response (server.encodeFrame response) := by
  have hredacted := proper_redacted hproper server.secrets
  have herror : (sizeError .null).Proper := proper_error (by rintro v ⟨⟩ n ⟨⟩) _ _
  have hnull : server.secrets.foldl redactValue .null = .null := by
    induction server.secrets with
    | nil => rfl
    | cons secret secrets ih =>
      have hone : redactValue .null secret = .null := by
        rw [redactValue, mapStrings]
        · split_ifs <;> rfl
        all_goals simp
      rw [foldl_cons, hone, ih]
  have hne : some Value.null ≠ some id := by
    rcases hid with ⟨s, rfl⟩ | ⟨n, rfl⟩ <;> simp
  rw [encodeFrame_eq hget hinside]
  rintro ⟨v, hv, hprint, _, _, hvid, _⟩
  split_ifs at hprint with hlarge
  · rw [← print_inj herror hv hprint] at hvid
    exact hne hvid
  · rw [← print_inj hredacted hv hprint, get_redacted (by decide), hget, Option.map_some,
      hnull] at hvid
    exact hne hvid

/-- Where secrets occur only in strings, a response with its id meets what is
asked of it exactly when it is fit. -/
theorem meets_iff
    (hlong : ∀ secret ∈ server.secrets, minRedactableSecretBytes ≤ bytes secret) (hid : IsId id)
    (hfree : ∀ secret ∈ server.secrets, ¬ secret <:+: idText id) (hproper : response.Proper)
    (hget : get response "id" = some id) (hinside : Inside server.secrets response) :
    Meets server.secrets id response (server.encodeFrame response) ↔
      Fit server.secrets id response := by
  have hidProper := proper_of_get hproper hget
  have hredacted := proper_redacted hproper server.secrets
  have herror : (sizeError id).Proper := proper_error (fun v hv => Option.some.inj hv ▸ hidProper) _ _
  rw [encodeFrame_eq hget hinside]
  unfold Fit
  by_cases hfits : bytes (server.secrets.foldl redactValue response).print ≤ maxResponseBytes
  · rw [if_neg (Nat.not_lt.mpr hfits), if_pos hfits]
    constructor
    · rintro ⟨v, hv, hprint, _, _, _, _, hclean⟩
      rwa [print_inj hredacted hv hprint]
    · intro hclean
      refine ⟨_, hredacted, rfl, newline_notMem_print _ hredacted, hfits, ?_, .inl ?_, hclean⟩
      · rw [get_redacted (by decide), hget, Option.map_some, redacted_id hid hfree]
      · rw [get_redacted (by decide), Option.isSome_map]
  · rw [if_pos (Nat.lt_of_not_le hfits), if_neg hfits]
    constructor
    · rintro ⟨v, hv, hprint, _, hbytes, _, _, hclean⟩
      rw [← print_inj herror hv hprint] at hclean
      refine ⟨hbytes, hclean _ ?_⟩
      simp [sizeError, error, strings, stringsFields]
    · rintro ⟨hbytes, hmessage⟩
      exact ⟨_, herror, rfl, newline_notMem_print _ herror, hbytes, get_id_sizeError, .inr rfl,
        clean_sizeError hlong hid hfree hmessage⟩

/-! ## What handles a frame -/

namespace Server

variable (env : Surroundings) {server : Server}

theorem proper_nil : (Value.object []).Proper := nofun

theorem proper_listPayload (tools : List SafeTool) : (listPayload tools).Proper := by
  have hitems : ∀ n ∈ numbersItems (tools.map SafeTool.descriptor), n.proper := by
    induction tools with
    | nil => exact nofun
    | cons tool tools ih =>
      intro n hn
      rw [map_cons, numbersItems, mem_append] at hn
      rcases hn with hdescriptor | hrest
      · have hnumbers : numbers tool.descriptor = numbers tool.schema.val := by
          simp [SafeTool.descriptor, numbers, numbersFields]
        rw [hnumbers] at hdescriptor
        exact tool.schema.property n hdescriptor
      · exact ih n hrest
  have hnumbers : numbers (listPayload tools) = numbersItems (tools.map SafeTool.descriptor) := by
    simp [listPayload, numbers, numbersFields]
  intro n hn
  rw [hnumbers] at hn
  exact hitems n hn

theorem proper_callResult (outcome : Except String Document) : (callResult outcome).Proper := by
  intro n hn
  cases outcome with
  | error message => simp [callResult, textContent, numbers, numbersFields, numbersItems] at hn
  | ok structured =>
    have hnumbers : numbers (callResult (.ok structured)) = numbers structured.val := by
      simp [callResult, textContent, numbers, numbersFields, numbersItems]
    rw [hnumbers] at hn
    exact structured.property n hn

theorem proper_callTool (h : (server.callTool env params).1 = .ok result) : result.Proper := by
  unfold callTool at h
  cases htarget : server.callTarget params with
  | error failure =>
    rw [htarget] at h
    cases h
  | ok target =>
    obtain ⟨tool, arguments⟩ := target
    rw [htarget] at h
    dsimp only at h
    cases hrun : (server.runWithTimeout env tool arguments).1 with
    | error failure =>
      rw [hrun] at h
      cases h
    | ok outcome =>
      rw [hrun] at h
      cases h
      exact proper_callResult outcome

/-- A result has numbers of the grammar. -/
theorem proper_route {method : String} {params result : Value}
    (h : (server.route env method params).1 = .ok result) : result.Proper := by
  unfold route at h
  split at h
  · unfold initialize_ at h
    cases hversion : requestedVersion params with
    | error failure =>
      rw [hversion] at h
      cases h
    | ok requested =>
      rw [hversion] at h
      cases h
      intro n hn
      simp [welcome, numbers, numbersFields] at hn
  · cases h
    exact proper_nil
  · cases hinit : server.requireInitialized with
    | error failure =>
      rw [hinit] at h
      cases h
    | ok u =>
      rw [hinit] at h
      cases h
      exact proper_listPayload server.tools
  · cases hinit : server.requireInitialized with
    | error failure =>
      rw [hinit] at h
      cases h
    | ok u =>
      rw [hinit] at h
      exact proper_callTool env h
  · cases h

theorem secrets_route (server : Server) (method : String) (params : Value) :
    (server.route env method params).2.secrets = server.secrets := by
  unfold route
  split
  · unfold initialize_
    cases requestedVersion params <;> rfl
  · rfl
  · rfl
  · cases server.requireInitialized with
    | error failure => rfl
    | ok u =>
      dsimp only
      unfold callTool
      cases server.callTarget params with
      | error failure => rfl
      | ok target =>
        obtain ⟨tool, arguments⟩ := target
        dsimp only
        unfold runWithTimeout
        cases env.worker server.calls <;> rfl
  · rfl

/-- A message with an id is answered with it. -/
theorem exists_of_handleMessage (server : Server) (hmessage : message.id = some id)
    (hid : id.Proper) :
    ∃ response later, server.handleMessage env message = (some response, later) ∧
      later.secrets = server.secrets ∧ response.Proper ∧ get response "id" = some id := by
  have hsecrets := secrets_route env server message.method message.params
  have hproper := @proper_route env server message.method message.params
  unfold handleMessage
  rw [hmessage]
  dsimp only
  rcases hroute : server.route env message.method message.params with ⟨failure | result, later⟩
  · rw [hroute] at hsecrets
    exact ⟨_, later, rfl, hsecrets, proper_error (fun v hv => Option.some.inj hv ▸ hid) _ _, rfl⟩
  · rw [hroute] at hsecrets hproper
    exact ⟨_, later, rfl, hsecrets, proper_success hid (hproper rfl), rfl⟩

/-- A document with an id, a version and a method is a message with the id or
fails with it. -/
theorem parseMessage_of_request (hversion : fields.lookup "jsonrpc" = some (.string "2.0"))
    (hmethod : fields.lookup "method" = some (.string method))
    (hlookup : fields.lookup "id" = some id) (hid : IsId id) :
    (∃ message, parseMessage (.object fields) = .ok message ∧ message.id = some id) ∨
      ∃ failure, parseMessage (.object fields) = .error failure ∧ failure.id = some id := by
  have hparse : parseId fields = .ok (some id) := by
    unfold parseId
    rw [hlookup]
    rcases hid with ⟨s, rfl⟩ | ⟨n, rfl⟩ <;> rfl
  have hmessage : parseMessage (.object fields) =
      (parseParams fields (some id)).map (fun params => ⟨some id, method, params⟩) := by
    have hok : parseVersion fields (some id) = .ok () := by
      unfold parseVersion
      rw [hversion]
      rfl
    have hname : parseMethod fields (some id) = .ok method := by
      unfold parseMethod
      rw [hmethod]
    unfold parseMessage
    dsimp only
    rw [hparse, ok_bind, hok, ok_bind, hname, ok_bind]
    cases parseParams fields (some id) <;> rfl
  rw [hmessage]
  unfold parseParams
  split
  · exact .inl ⟨_, rfl, rfl⟩
  · exact .inl ⟨_, rfl, rfl⟩
  · exact .inl ⟨_, rfl, rfl⟩
  · exact .inr ⟨_, rfl, rfl⟩

/-- A request is answered; with its id unless it is too deep. -/
theorem exists_of_request (server : Server) {method : String}
    (hframe : env.fromSlice frame = .ok document) (hdocument : document.val = .object fields)
    (hversion : fields.lookup "jsonrpc" = some (.string "2.0"))
    (hmethod : fields.lookup "method" = some (.string method))
    (hlookup : fields.lookup "id" = some id) (hid : IsId id) :
    ∃ response later, server.handleFrame env frame = (some response, later) ∧
      later.secrets = server.secrets ∧ response.Proper ∧
      get response "id" = some (if jsonDepth document.val > maxJsonDepth then .null else id) := by
  obtain ⟨v, hv⟩ := document
  subst hdocument
  have hproper := proper_of_lookup hv hlookup
  have hnotification : isNotification (.object fields) = false := by
    simp [isNotification, Value.asObject, hlookup]
  unfold handleFrame
  rw [hframe]
  dsimp only
  by_cases hdeep : jsonDepth (.object fields) > maxJsonDepth
  · rw [if_pos hdeep, if_pos hdeep, hnotification]
    exact ⟨_, server, rfl, rfl, proper_error (by rintro v ⟨⟩) _ _, rfl⟩
  · rw [if_neg hdeep, if_neg hdeep]
    rcases parseMessage_of_request hversion hmethod hlookup hid with
      ⟨message, hparse, hmessage⟩ | ⟨failure, hparse, hfailure⟩
    · rw [hparse]
      exact exists_of_handleMessage env server hmessage hproper
    · rw [hparse]
      dsimp only
      rw [hnotification, hfailure]
      exact ⟨_, server, rfl, rfl, proper_error (fun v hv => Option.some.inj hv ▸ hproper) _ _, rfl⟩

theorem id_of_notification (h : isNotification v) (hparse : parseMessage v = .ok message) :
    message.id = none := by
  cases v with
  | object fields =>
    have hnone : fields.lookup "id" = none := by
      simp only [isNotification, Value.asObject, Option.any_some, Bool.and_eq_true,
        Option.isNone_iff_eq_none] at h
      exact h.1
    have hid : parseId fields = .ok none := by rw [parseId, hnone]
    unfold parseMessage at hparse
    dsimp only at hparse
    rw [hid, ok_bind] at hparse
    obtain ⟨_, _, hparse⟩ := bind_ok_iff.mp hparse
    obtain ⟨_, _, hparse⟩ := bind_ok_iff.mp hparse
    obtain ⟨_, _, hparse⟩ := bind_ok_iff.mp hparse
    cases hparse
    rfl
  | _ => cases h

/-- A document without an id and with a method is never answered. -/
theorem silent_of_notification (server : Server) (hframe : env.fromSlice frame = .ok document)
    (h : isNotification document.val) : (server.handleFrame env frame).1 = none := by
  obtain ⟨v, hv⟩ := document
  unfold handleFrame
  rw [hframe]
  dsimp only at h ⊢
  rw [h]
  by_cases hdeep : jsonDepth v > maxJsonDepth
  · rw [if_pos hdeep]
    rfl
  · rw [if_neg hdeep]
    cases hparse : parseMessage v with
    | error failure => rfl
    | ok message =>
      show (server.handleMessage env message).1 = none
      rw [handleMessage, id_of_notification h hparse]

end Server

open Server

variable (env : Surroundings)

/-- A request for a tool that fails with a text. -/
def sampleFields (method : String) : List (String × Value) :=
  [("id", .number (.posInt 1)), ("jsonrpc", .string "2.0"), ("method", .string method),
    ("params", .object [("name", .string "abbey_status")])]

def sampleDocument (method : String) : Document :=
  ⟨.object (sampleFields method), by
    intro n hn
    simp [sampleFields, numbers, numbersFields] at hn
    rw [hn]
    rfl⟩

def sampleFrame (method : String) : List UInt8 :=
  (String.ofList (sampleDocument method).val.print).toUTF8.toList

def sampleSurroundings (method : String) : Surroundings where
  version := "0.1.0"
  fromSlice frame :=
    if frame = sampleFrame method then .ok (sampleDocument method) else .error "expected value"
  worker _ := .finished

def sampleServer (secret message : String) : Server where
  tools := [⟨"abbey_status", "", "", .readOnly, ⟨.object [], proper_nil⟩, fun _ => .error message⟩]
  callTimeoutMillis := 5000
  initialized := true
  secrets := [secret.toList]
  calls := 0

theorem fromSlice_sample (method : String) :
    (sampleSurroundings method).fromSlice (sampleFrame method) = .ok (sampleDocument method) :=
  if_pos rfl

theorem shallow_sample (method : String) :
    ¬ jsonDepth (sampleDocument method).val > maxJsonDepth := by
  rw [gt_iff_lt, maxDepth_lt_jsonDepth]
  simp [sampleDocument, sampleFields, depth, depthFields, maxJsonDepth]

theorem proper_sample_id : (Value.number (.posInt 1)).Proper := by
  intro n hn
  rw [mem_singleton.mp hn]
  rfl

end Abbey.Host
