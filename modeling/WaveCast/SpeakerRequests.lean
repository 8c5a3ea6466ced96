import WaveCast.Lineage

/-!
# Speaker requests

A user may ask to speak once at a time, and a request is decided once. Neither
is enforced by the store: `RequestToSpeak` looks for a pending request before
it saves its own, and a decision reads the request before it saves it back.

* `one_pending_request_iff`: no two requests of a user are pending in a room
  iff no `RequestToSpeak` saves its request over a check that another request
  has outdated;
* `decided_once`: when no decision is saved over one that came after its read,
  at most one decision on a request succeeds, and it stands.
-/

namespace WaveCast

open Interaction WaveCast.Action Program Service

variable {s : Service} {I : Infra} {ms : List VoiceMove} {p : VoicePool}
  {t newer older : List VoiceEntry} {w w' : World} {e f : VoiceEntry} {k : String}
  {request : SpeakerRequest}

/-! ## The saves of a run -/

/-- A request is saved as pending when it is created, and never again. -/
theorem request_save_cases (h : (s.system I).run ms = some p) :
    Always (fun older e => ∀ k request, requestSaves e = some (k, request) →
      (lastWrite requestSaves k older = none ∧ request.status = .pending ∧
        ∃ c, e.cmd = .requestToSpeak c) ∨
      (request.status ≠ .pending ∧ ∃ c status, decision e.cmd = some (c, status))) p.trace := by
  have hfresh := fresh_draws prefixSpeakerRequest (System.run_replays h)
  refine (Evolves.cases (requests_evolve h) hfresh).mono ?_
  intro older e hs k request hw
  rcases hs k request hw with ⟨hfirst, c, t, room, hcmd, -, hnew⟩ |
    ⟨request₀, -, c, status, t, hd, -, -, -, -, rfl⟩
  · exact .inl ⟨hfirst, by rw [hnew]; rfl, c, hcmd⟩
  · exact .inr ⟨decision_ne_pending hd, c, status, hd⟩

/-- The call checked that the user has no pending request in the room. -/
def FindsNoPending (r : VoiceEntry) (roomID userID : String) : Prop :=
  r.exchange = ⟨.store (.findPendingSpeakerRequest roomID userID), .error .speakerRequestNotFound⟩

theorem request_checked (h : (s.system I).run ms = some p) :
    Always (fun older e => ∀ c k request, e.cmd = .requestToSpeak c →
      requestSaves e = some (k, request) → ∃ mid r rest, older = mid ++ r :: rest ∧
        client r = client e ∧ FindsNoPending r request.roomID request.userID) p.trace := by
  refine (run_asks h).mono ?_
  rintro older e hasks c k request hcmd hw
  obtain ⟨hx, -⟩ := savedSpeakerRequest_eq_some.mp hw
  rw [hx, hcmd] at hasks
  obtain ⟨t, id, room, hh, -, rfl⟩ := hasks
  exact exists_read (S := effects) (x := ⟨.store (.findPendingSpeakerRequest room.id c.userID),
    .error .speakerRequestNotFound⟩) (by simp [hh])

theorem SavesSpeakerRequest.decides {hist : List VoiceExchange} {cmd : Command}
    {c : DecideSpeakerRequestCommand} {status : SpeakerRequestStatus}
    (h : SavesSpeakerRequest hist request cmd) (hd : decision cmd = some (c, status)) :
    Decides hist request c status := by
  cases cmd <;> cases hd <;> exact h

/-- A decision is made on a request that its command has read as pending. -/
theorem request_decided (h : (s.system I).run ms = some p) :
    Always (fun older e => ∀ c status k request, decision e.cmd = some (c, status) →
      requestSaves e = some (k, request) → ∃ mid r rest request₀, older = mid ++ r :: rest ∧
        client r = client e ∧ requestReads r = some (k, request₀) ∧
        request₀.status = .pending) p.trace := by
  refine run_calls h fun ms' q e hq hasks _ c status k request hd hw => ?_
  obtain ⟨hx, rfl⟩ := savedSpeakerRequest_eq_some.mp hw
  rw [hx] at hasks
  obtain ⟨t, room, request₀, hh, -, -, hp, rfl⟩ := SavesSpeakerRequest.decides hasks hd
  have hmem : (⟨.store (.getSpeakerRequest c.requestID), .ok request₀⟩ : VoiceExchange) ∈
      threadHistory e.thread q.trace := by simp [hh]
  obtain ⟨mid, r, rest, ht, hi, hx⟩ := exists_read hmem
  have hread := readSpeakerRequest_eq_some.mpr hx
  have hcoh := requests_coherent (System.run_replays hq)
  rw [ht] at hcoh
  have hid := stored_request_id (hcoh.at _ _ hread)
  exact ⟨mid, r, rest, request₀, ht, hi, hid ▸ hread, hp⟩

/-! ## One pending request for each user -/

theorem World.exec_findPending_none {env : Env} {roomID userID : String}
    (h : World.exec I env (.store (.findPendingSpeakerRequest roomID userID)) w =
      some (.error .speakerRequestNotFound, w'))
    (hl : w.store.speakerRequests.lookup k = some request) (hr : request.roomID = roomID)
    (hu : request.userID = userID) : request.status ≠ .pending := by
  intro hp
  rcases World.exec_store h with ⟨hf, -⟩ | ⟨st, hs, -⟩
  · cases hf
  · obtain ⟨requests, hrange, hfind⟩ := Option.map_eq_some_iff.mp hs
    have hmem := (Table.mem_range hrange request).mpr ⟨k, hl⟩
    have hnone := (Prod.mk.inj hfind).1
    unfold Store.findSpeakerRequest at hnone
    cases hfound : requests.find? _ with
    | some found => rw [hfound] at hnone; cases hnone
    | none => exact absurd (List.find?_eq_none.mp hfound request hmem) (by simp [hr, hu, hp])

/-- No user has two pending requests in a room, in any state of the run. -/
def OnePendingRequest (s : Service) (I : Infra) (ms : List VoiceMove) : Prop :=
  ∀ n q k k' request request', (s.system I).run (ms.take n) = some q →
    q.state.store.speakerRequests.lookup k = some request →
    q.state.store.speakerRequests.lookup k' = some request' →
    request.roomID = request'.roomID → request.userID = request'.userID →
    request.status = .pending → request'.status = .pending → k = k'

/-- When `RequestToSpeak` saves its request, no request of the user in the room
that was saved since its check is still pending. -/
def NoOutdatedCheck (t : List VoiceEntry) : Prop :=
  Always (fun older e => ∀ c k request mid r rest, e.cmd = .requestToSpeak c →
    requestSaves e = some (k, request) → older = mid ++ r :: rest → client r = client e →
    FindsNoPending r request.roomID request.userID →
    ∀ f ∈ mid, ∀ k' saved stored, requestSaves f = some (k', saved) →
      lastWrite requestSaves k' older = some stored → stored.roomID = request.roomID →
      stored.userID = request.userID → stored.status ≠ .pending) t

/-- The requests that a trace leaves pending are of different users or rooms. -/
def PendingDistinct (t : List VoiceEntry) : Prop :=
  ∀ k k' request request', lastWrite requestSaves k t = some request →
    lastWrite requestSaves k' t = some request' → request.roomID = request'.roomID →
    request.userID = request'.userID → request.status = .pending → request'.status = .pending →
    k = k'

theorem onePendingRequest_iff (h : (s.system I).run ms = some p) :
    OnePendingRequest s I ms ↔
      ∀ newer older, p.trace = newer ++ older → PendingDistinct older := by
  constructor
  · intro hone newer older ht k k' request request' hk hk'
    obtain ⟨n, q, hq, rfl⟩ := System.run_prefix h ht
    rw [← lookup_speakerRequests (System.run_replays hq)] at hk hk'
    exact hone n q k k' request request' hq hk hk'
  · intro hall n q k k' request request' hq hk hk'
    obtain ⟨q', newer, hq', ht⟩ := System.run_take h n
    obtain rfl := Option.some.inj (hq.symm.trans hq')
    rw [lookup_speakerRequests (System.run_replays hq)] at hk hk'
    exact hall newer q.trace ht k k' request request' hk hk'

theorem FindsNoPending.not_save {r : VoiceEntry} {roomID userID : String}
    (h : FindsNoPending r roomID userID) : requestSaves r = none := by
  unfold FindsNoPending at h
  simp [requestSaves, h, savedSpeakerRequest]

/-- A request that was not found by a check and is pending now was saved since. -/
theorem saved_since_check (hrep : (s.system I).Replays t w) {mid rest : List VoiceEntry}
    {r : VoiceEntry} (ht : t = mid ++ r :: rest) {roomID userID : String}
    (hr : FindsNoPending r roomID userID) (hl : lastWrite requestSaves k t = some request)
    (hroom : request.roomID = roomID) (huser : request.userID = userID)
    (hp : request.status = .pending) : ∃ f ∈ mid, requestSaves f = some (k, request) := by
  rw [ht, lastWrite_append] at hl
  cases hmid : lastWrite requestSaves k mid with
  | some stored =>
    rw [hmid] at hl
    cases hl
    exact exists_write_of_lastWrite hmid
  | none =>
    rw [hmid, Option.none_or, lastWrite_cons_other (by simp [hr.not_save])] at hl
    rw [ht] at hrep
    obtain ⟨w₁, w₀, h₀, hx⟩ := hrep.of_append
    obtain ⟨i, cmd, env, x⟩ := r
    obtain rfl : x = _ := hr
    rw [← lookup_speakerRequests h₀] at hl
    exact absurd hp (World.exec_findPending_none hx hl hroom huser)

/-- Saving a request keeps the pending requests distinct when its check still
holds. -/
theorem PendingDistinct.cons (h : (s.system I).run ms = some p) (ht : p.trace = newer ++ e :: older)
    (hc : NoOutdatedCheck p.trace) (hd : PendingDistinct older) : PendingDistinct (e :: older) := by
  have hcases := request_save_cases h
  have hcheck := request_checked h
  have hrep := System.run_replays h
  rw [ht] at hcases hcheck hrep hc
  obtain ⟨w₁, w₀, h₀, -⟩ := hrep.of_append
  -- a saved request is not pending beside one that was pending before
  have apart : ∀ k k' request request', requestSaves e = some (k, request) →
      lastWrite requestSaves k' older = some request' → request'.roomID = request.roomID →
      request'.userID = request.userID → request.status = .pending →
      request'.status ≠ .pending := by
    intro k k' request request' hw hl hroom huser hp hp'
    rcases hcases.at k request hw with ⟨-, -, c, hcmd⟩ | ⟨hne, -⟩
    · obtain ⟨mid, r, rest, hold, hi, hr⟩ := hcheck.at c k request hcmd hw
      obtain ⟨f, hf, hwf⟩ := saved_since_check h₀ hold hr hl hroom huser hp'
      exact hc.at c k request mid r rest hcmd hw hold hi hr f hf k' request' request' hwf hl hroom
        huser hp'
    · exact hne hp
  intro k k' request request' hk hk' hroom huser hp hp'
  rcases lastWrite_cons_eq_some hk with hw | ⟨-, hold⟩ <;>
    rcases lastWrite_cons_eq_some hk' with hw' | ⟨-, hold'⟩
  · rw [hw] at hw'
    cases hw'
    rfl
  · exact absurd hp' (apart k k' request request' hw hold' hroom.symm huser.symm hp)
  · exact absurd hp (apart k' k request' request hw' hold hroom huser hp')
  · exact hd k k' request request' hold hold' hroom huser hp hp'

/-- **One pending request for each user.** In every state of a run a user has
at most one pending request in a room iff no `RequestToSpeak` saves its request
after a check that another pending request has outdated. -/
theorem one_pending_request_iff (s : Service) (I : Infra) (ms : List VoiceMove) (p : VoicePool)
    (h : (s.system I).run ms = some p) : OnePendingRequest s I ms ↔ NoOutdatedCheck p.trace := by
  rw [onePendingRequest_iff h]
  constructor
  · intro hdistinct
    rw [NoOutdatedCheck, always_iff]
    intro newer e older ht c k request mid r rest hcmd hw hold hi hr f hf k' saved stored hwf hl
      hroom huser hp
    have hcases := request_save_cases h
    rw [ht] at hcases
    rcases hcases.at k request hw with ⟨hfirst, hpending, -⟩ | ⟨-, c', status, hd⟩
    · have hne : k' ≠ k := by
        rintro rfl
        rw [hfirst] at hl
        cases hl
      have hl' : lastWrite requestSaves k' (e :: older) = some stored := by
        rw [lastWrite_cons_other, hl]
        intro v hv
        rw [hw] at hv
        exact hne (congrArg Prod.fst (Option.some.inj hv)).symm
      exact hne (hdistinct newer (e :: older) ht k' k stored request hl' (lastWrite_cons_self hw)
        hroom huser hp hpending)
    · rw [hcmd] at hd
      cases hd
  · intro hc newer older ht
    induction older generalizing newer with
    | nil => intro k k' request request' hk; cases hk
    | cons e older ih => exact .cons h ht hc (ih (newer ++ [e]) (by simp [ht]))

/-- A listener asks to speak twice at once: both commands check before one saves. -/
def doubleClick : List VoiceMove :=
  movesFrom 0 openRoom ++
  .start (.requestToSpeak ⟨sampleRoom, "guest", ""⟩) ::
  .start (.requestToSpeak ⟨sampleRoom, "guest", ""⟩) ::
  (plain 3).map (.call 2) ++ (plain 3).map (.call 3) ++
  (drawing 4 ++ plain 2).map (.call 2) ++ (drawing 5 ++ plain 2).map (.call 3)

theorem one_pending_request_fails :
    ¬ ∀ (s : Service) (I : Infra) (ms : List VoiceMove) (p : VoicePool),
      (s.system I).run ms = some p → OnePendingRequest s I ms := by
  intro hclaim
  have hrun : ((sampleService.system (sampleInfra fun _ => false)).run doubleClick).any (fun p =>
      [newID prefixSpeakerRequest (sampleUlid 4), newID prefixSpeakerRequest (sampleUlid 5)].all
        fun k => (p.state.store.speakerRequests.lookup k).any fun request =>
          request.roomID = sampleRoom && request.userID = "guest" && request.status = .pending) =
      true := by decide +kernel
  obtain ⟨p, hp, hall⟩ := (Option.any_eq_true _ _).mp hrun
  simp only [List.all_cons, List.all_nil, Bool.and_true, Bool.and_eq_true, Option.any_eq_true,
    decide_eq_true_eq] at hall
  obtain ⟨⟨r₁, h₁, ⟨hr₁, hu₁⟩, hp₁⟩, r₂, h₂, ⟨hr₂, hu₂⟩, hp₂⟩ := hall
  have heq := hclaim _ _ doubleClick p hp doubleClick.length p _ _ r₁ r₂
    (by rw [List.take_length]; exact hp) h₁ h₂ (hr₁.trans hr₂.symm) (hu₁.trans hu₂.symm) hp₁ hp₂
  exact absurd (newID_injective _ heq) (by decide)

/-- The second request comes after the first one was saved, and is refused. -/
def secondClick : List VoiceMove :=
  movesFrom 0 openRoom ++
  .start (.requestToSpeak ⟨sampleRoom, "guest", ""⟩) ::
  .start (.requestToSpeak ⟨sampleRoom, "guest", ""⟩) ::
  (plain 3 ++ drawing 4 ++ plain 2).map (.call 2) ++
  (plain 2 ++ visiting [newID prefixSpeakerRequest (sampleUlid 4)]).map (.call 3)

/-- Where only one request is ever saved, no check is outdated. -/
theorem noOutdatedCheck_of_once {t : List VoiceEntry} (h : Always (fun older e =>
    (requestSaves e).isSome → ∀ f ∈ older, requestSaves f = none) t) : NoOutdatedCheck t := by
  refine h.mono fun older e honce c k request mid r rest _ hs ht _ _ f hf k' saved _ hw => ?_
  subst ht
  rw [honce (by rw [hs]; rfl) f (List.mem_append_left _ hf)] at hw
  cases hw

/-- The command ended with a conflict. -/
def endsInConflict (t : Thread effects Command AppError Reply) : Bool :=
  match t.rest with
  | .fail .conflict => true
  | _ => false

theorem one_pending_request_in_turn :
    ∃ p, (sampleService.system (sampleInfra fun _ => false)).run secondClick = some p ∧
      p.threads[3]?.any endsInConflict = true ∧
      OnePendingRequest sampleService (sampleInfra fun _ => false) secondClick := by
  have hrun : ((sampleService.system (sampleInfra fun _ => false)).run secondClick).any (fun p =>
      p.threads[3]?.any endsInConflict ∧ Always (fun older e =>
        (requestSaves e).isSome → ∀ f ∈ older, requestSaves f = none) p.trace) = true := by
    decide +kernel
  obtain ⟨p, hp, hfacts⟩ := (Option.any_eq_true _ _).mp hrun
  obtain ⟨hrefused, honce⟩ := of_decide_eq_true hfacts
  exact ⟨p, hp, hrefused, (one_pending_request_iff _ _ _ p hp).mpr (noOutdatedCheck_of_once honce)⟩

/-! ## One decision for each request -/

def decisionEvent (status : SpeakerRequestStatus) : String :=
  if status = .approved then eventSpeakerApproved else eventSpeakerDeclined

/-- What a successful decision has read, saved, published and returned. -/
def DecisionMade (h : List VoiceExchange) (c : DecideSpeakerRequestCommand)
    (status : SpeakerRequestStatus) (reply : Reply) : Prop :=
  ∃ t request₀ request event, request = decidedRequest request₀ c status t ∧
    reply = .speakerRequest request ∧
    ⟨.store (.getSpeakerRequest c.requestID), .ok request₀⟩ ∈ h ∧
    ⟨.store (.saveSpeakerRequest request), .ok ()⟩ ∈ h ∧
    (∀ event', ⟨.publish event', .ok ()⟩ ∈ h ↔ event' = event) ∧
    event.eventType = decisionEvent status ∧ event.payload = .speakerRequest request

theorem decideSpeakerRequest_made {c : DecideSpeakerRequestCommand}
    {status : SpeakerRequestStatus} {eventType : String}
    (hevent : eventType = decisionEvent status) :
    Follows (S := effects) (fun _ _ => True)
      (fun h r => ∀ reply, r = .ok reply → DecisionMade h c status reply) []
      (Reply.speakerRequest <$> decideSpeakerRequest c status eventType) := by
  simp only [decideSpeakerRequest, publish, map_eq, bind_eq, pure_eq, bind_assoc, follows_store,
    follows_require, follows_now, follows_fresh, follows_publishCall, true_and, ret_bind,
    follows_ret]
  refine ⟨fun room => ⟨fun _ => ⟨fun request₀ => ⟨fun _ t => ⟨fun _ eventID occurredAt =>
    ⟨fun _ => ⟨?_, by simp⟩, by simp⟩, by simp⟩, by simp⟩, by simp⟩, by simp⟩, by simp⟩
  rintro _ ⟨⟩
  exact ⟨t, request₀, _, ⟨eventID, eventType, 1, room.id, c.actorUserID, request₀.userID,
    c.correlationID, "", occurredAt, .speakerRequest (decidedRequest request₀ c status t)⟩,
    rfl, rfl, by simp, by simp, by simp [decidedRequest], hevent, rfl⟩

/-- Every decision that a command reports is made as it says. -/
theorem program_decides (s : Service) (cmd : Command) :
    Follows (S := effects) (fun _ _ => True) (fun h r => ∀ c status reply,
      decision cmd = some (c, status) → r = .ok reply → DecisionMade h c status reply) []
      (s.program cmd) := by
  cases hd : decision cmd with
  | none =>
    refine follows_of_forall (fun _ _ => trivial) (fun _ _ _ _ _ hd' => ?_) _ _
    cases hd'
  | some d =>
    obtain ⟨c, status⟩ := d
    have hmade : Follows (S := effects) (fun _ _ => True)
        (fun h r => ∀ reply, r = .ok reply → DecisionMade h c status reply) [] (s.program cmd) := by
      cases cmd <;> cases hd <;> exact decideSpeakerRequest_made rfl
    refine hmade.mono (fun _ _ h => h) ?_
    rintro h r hr _ _ reply ⟨⟩ hok
    exact hr reply hok

/-- A thread that decided a request with success. -/
def Decided (q : VoicePool) (i : ℕ) (c : DecideSpeakerRequestCommand)
    (status : SpeakerRequestStatus) (reply : Reply) : Prop :=
  ∃ cmd, q.threads[i]? = some ⟨cmd, .ret reply⟩ ∧ decision cmd = some (c, status)

/-- The decision of thread `i` in state `q` is that of the stored request in
state `q'`, and so is the one event it has published. -/
def DecisionStands (q q' : VoicePool) (i : ℕ) (c : DecideSpeakerRequestCommand)
    (status : SpeakerRequestStatus) (reply : Reply) : Prop :=
  ∃ request event, q'.state.store.speakerRequests.lookup c.requestID = some request ∧
    request.status = status ∧ request.decidedBy = c.actorUserID ∧ reply = .speakerRequest request ∧
    (∀ event', ⟨.publish event', .ok ()⟩ ∈ threadHistory i q.trace ↔ event' = event) ∧
    event.eventType = decisionEvent status ∧ event.payload = .speakerRequest request

/-- At most one decision on a request succeeds, and it stands in every later
state of the run. -/
structure DecidedOnce (s : Service) (I : Infra) (ms : List VoiceMove) : Prop where
  one : ∀ n q i j c c' status status' reply reply', (s.system I).run (ms.take n) = some q →
    Decided q i c status reply → Decided q j c' status' reply' → c.requestID = c'.requestID → i = j
  stands : ∀ n m q q' i c status reply, n ≤ m → (s.system I).run (ms.take n) = some q →
    (s.system I).run (ms.take m) = some q' → Decided q i c status reply →
    DecisionStands q q' i c status reply

/-- No decision is saved on a request that was saved again after the command
had read it. -/
def NoOverriddenDecision (t : List VoiceEntry) : Prop :=
  Always (fun older e => ∀ c status k request mid r rest request₀,
    decision e.cmd = some (c, status) → requestSaves e = some (k, request) →
    older = mid ++ r :: rest → client r = client e → requestReads r = some (k, request₀) →
    ∀ f ∈ mid, ∀ saved, requestSaves f ≠ some (k, saved)) t

/-- A request that is pending was never decided. -/
theorem pending_undecided (h : (s.system I).run ms = some p) (ht : p.trace = newer ++ older)
    (hl : lastWrite requestSaves k older = some request) (hp : request.status = .pending) :
    ∀ f ∈ older, ∀ saved, requestSaves f = some (k, saved) → saved.status = .pending := by
  have hcases := request_save_cases h
  rw [ht] at hcases
  replace hcases := hcases.of_append
  clear ht
  induction older with
  | nil => simp
  | cons e older ih =>
    intro f hf saved hw
    rcases lastWrite_cons_eq_some hl with hwe | ⟨hno, hold⟩
    · rcases hcases.1 k request hwe with ⟨hfirst, -, -⟩ | ⟨hne, -⟩
      · rcases List.mem_cons.mp hf with rfl | hf
        · rw [hwe] at hw
          cases hw
          exact hp
        · exact absurd hw (lastWrite_eq_none.mp hfirst f hf saved)
      · exact absurd hp hne
    · rcases List.mem_cons.mp hf with rfl | hf
      · exact absurd hw (hno saved)
      · exact ih hold hcases.2 f hf saved hw

/-- **A request is decided once** when no decision overrides another. -/
theorem decision_first (h : (s.system I).run ms = some p) (hc : NoOverriddenDecision p.trace)
    (ht : p.trace = newer ++ e :: older) {c : DecideSpeakerRequestCommand}
    {status : SpeakerRequestStatus} (hd : decision e.cmd = some (c, status))
    (hw : requestSaves e = some (k, request)) :
    ∀ f ∈ older, ∀ saved, requestSaves f = some (k, saved) → saved.status = .pending := by
  have hdecided := request_decided h
  have hcoh := requests_coherent (System.run_replays h)
  rw [ht] at hdecided hc
  obtain ⟨mid, r, rest, request₀, rfl, hi, hr, hp⟩ := hdecided.at c status k request hd hw
  have hno := hc.at c status k request mid r rest request₀ hd hw rfl hi hr
  have hrest : p.trace = (newer ++ e :: mid) ++ r :: rest := by simp [ht]
  rw [hrest] at hcoh
  have htrace : p.trace = (newer ++ [e]) ++ (mid ++ r :: rest) := by simp [ht]
  refine pending_undecided h htrace ?_ hp
  rw [lastWrite_append_other hno]
  rw [lastWrite_cons_other, hcoh.at k request₀ hr]
  intro saved hsaved
  have hx := readSpeakerRequest_eq_some.mp hr
  simp [requestSaves, hx, savedSpeakerRequest] at hsaved

/-- Nothing is saved over a decision. -/
theorem decision_last (h : (s.system I).run ms = some p) (hc : NoOverriddenDecision p.trace)
    (ht : p.trace = newer ++ e :: older) {c : DecideSpeakerRequestCommand}
    {status : SpeakerRequestStatus} (hd : decision e.cmd = some (c, status))
    (hw : requestSaves e = some (k, request)) : ∀ f ∈ newer, ∀ saved,
      requestSaves f ≠ some (k, saved) := by
  intro f hf saved hwf
  have hcases := request_save_cases h
  obtain ⟨n₁, n₂, rfl⟩ := List.append_of_mem hf
  have ht' : p.trace = n₁ ++ f :: (n₂ ++ e :: older) := by simp [ht]
  have hne : request.status ≠ .pending := by
    rw [ht] at hcases
    rcases hcases.at k request hw with ⟨-, -, c', hcmd⟩ | ⟨hne, -⟩
    · rw [hcmd] at hd
      cases hd
    · exact hne
  rw [ht'] at hcases
  rcases hcases.at k saved hwf with ⟨hfirst, -, -⟩ | ⟨-, c', status', hd'⟩
  · exact lastWrite_eq_none.mp hfirst e (by simp) request hw
  · exact hne (decision_first h hc ht' hd' hwf e (by simp) request hw)

/-- A thread that decided a request has saved its decision. -/
theorem Decided.saved (h : (s.system I).run ms = some p) {i : ℕ} {c : DecideSpeakerRequestCommand}
    {status : SpeakerRequestStatus} {reply : Reply} (hd : Decided p i c status reply) :
    DecisionMade (threadHistory i p.trace) c status reply ∧
    ∃ newer e older request, p.trace = newer ++ e :: older ∧ e.thread = i ∧
      decision e.cmd = some (c, status) ∧ requestSaves e = some (c.requestID, request) ∧
      reply = .speakerRequest request := by
  obtain ⟨cmd, hi, hcmd⟩ := hd
  have hmade := (System.run_obeys (program_decides s) h).1 i cmd _ hi c status reply hcmd rfl
  refine ⟨hmade, ?_⟩
  obtain ⟨t, request₀, request, event, rfl, hreply, hread, hsave, -⟩ := hmade
  obtain ⟨newer, e, older, ht, hthread, hx⟩ := exists_read hsave
  have hid : request₀.id = c.requestID := by
    obtain ⟨_, _, -, hl⟩ := request_was_stored (requests_coherent (System.run_replays h)) hread
    exact stored_request_id hl
  obtain ⟨rest, hrest⟩ := System.run_threads h e (by simp [ht])
  rw [show e.thread = i from hthread, hi] at hrest
  refine ⟨newer, e, older, _, ht, hthread, ?_, ?_, hreply⟩
  · rw [← (Thread.mk.inj (Option.some.inj hrest)).1]
    exact hcmd
  · exact savedSpeakerRequest_eq_some.mpr ⟨hx, hid.symm⟩

/-- **A request is decided once.** In every run in which no decision overrides
one that came after its read, at most one decision on a request succeeds, and
its status, moderator, reply and event are those of the stored request in every
later state. -/
theorem decided_once (s : Service) (I : Infra) (ms : List VoiceMove) (p : VoicePool)
    (h : (s.system I).run ms = some p) (hc : NoOverriddenDecision p.trace) :
    DecidedOnce s I ms := by
  -- every state of the run meets the condition too
  have hevery : ∀ n q, (s.system I).run (ms.take n) = some q → NoOverriddenDecision q.trace := by
    intro n q hq
    obtain ⟨q', newer, hq', ht⟩ := System.run_take h n
    obtain rfl := Option.some.inj (hq.symm.trans hq')
    rw [ht] at hc
    exact Always.of_append hc
  constructor
  · intro n q i j c c' status status' reply reply' hq hi hj hid
    have hcq := hevery n q hq
    obtain ⟨-, newer, e, older, request, ht, rfl, hd, hw, -⟩ := hi.saved hq
    obtain ⟨-, newer', f, older', request', ht', rfl, hd', hw', -⟩ := hj.saved hq
    have hmem : f ∈ newer ++ e :: older := by rw [← ht, ht']; simp
    rw [← hid] at hw'
    rcases List.mem_append.mp hmem with hf | hf
    · exact absurd hw' (decision_last hq hcq ht hd hw f hf request')
    · rcases List.mem_cons.mp hf with rfl | hf
      · rfl
      · obtain ⟨m₁, m₂, rfl⟩ := List.append_of_mem hf
        have ht'' : q.trace = (newer ++ e :: m₁) ++ f :: m₂ := by simp [ht]
        exact absurd hw (decision_last hq hcq ht'' hd' hw' e (by simp) request)
  · intro n m q q' i c status reply hnm hq hq' hi
    obtain ⟨hmade, newer, e, older, request, ht, rfl, hd, hw, rfl⟩ := hi.saved hq
    obtain ⟨t, request₀, _, event, rfl, hreply, hread, hsave, hevent, htype, hpayload⟩ := hmade
    cases hreply
    obtain ⟨q₁, newer', hq₁, ht'⟩ := System.run_take hq' n
    rw [List.take_take, Nat.min_eq_left hnm, hq] at hq₁
    cases hq₁
    have htrace : q'.trace = (newer' ++ newer) ++ e :: older := by simp [ht', ht]
    refine ⟨_, event, ?_, rfl, rfl, rfl, hevent, htype, hpayload⟩
    have hlast := decision_last hq' (hevery m q' hq') htrace hd hw
    rw [lookup_speakerRequests (System.run_replays hq'), htrace, lastWrite_append_other hlast,
      lastWrite_cons_self hw]

/-- A guest has asked to speak, and the owner and a moderator both read the
request before one of them decides. -/
def contestedRequest : List VoiceMove :=
  movesFrom 0 (openRoom ++ [(.requestToSpeak ⟨sampleRoom, "guest", ""⟩,
    plain 3 ++ drawing 4 ++ plain 2 ++ publishing 5)]) ++
  .start (.approveSpeakerRequest ⟨sampleRoom, sampleRequest, "owner", "", ""⟩) ::
  .start (.declineSpeakerRequest ⟨sampleRoom, sampleRequest, "moderator", "", ""⟩) ::
  (plain 2).map (.call 3) ++ (plain 2).map (.call 4) ++
  (plain 2 ++ publishing 6).map (.call 3) ++ (plain 2 ++ publishing 7).map (.call 4)

/-- Thread `i` has ended with success in deciding the request. -/
def hasDecided (p : VoicePool) (i : ℕ) (requestID : String) : Bool :=
  match p.threads[i]? with
  | some ⟨cmd, .ret _⟩ => (decision cmd).any (·.1.requestID = requestID)
  | _ => false

theorem decided_of_hasDecided {i : ℕ} {requestID : String} (h : hasDecided p i requestID = true) :
    ∃ c status reply, Decided p i c status reply ∧ c.requestID = requestID := by
  unfold hasDecided at h
  split at h
  · rename_i cmd reply hi
    obtain ⟨⟨c, status⟩, hd, hid⟩ := (Option.any_eq_true _ _).mp h
    exact ⟨c, status, reply, ⟨cmd, hi, hd⟩, of_decide_eq_true hid⟩
  · cases h

theorem decided_once_fails :
    ¬ ∀ (s : Service) (I : Infra) (ms : List VoiceMove) (p : VoicePool),
      (s.system I).run ms = some p → DecidedOnce s I ms := by
  intro hclaim
  have hrun : ((sampleService.system (sampleInfra fun _ => false)).run contestedRequest).any
      (fun p => hasDecided p 3 sampleRequest && hasDecided p 4 sampleRequest) = true := by
    decide +kernel
  obtain ⟨p, hp, hboth⟩ := (Option.any_eq_true _ _).mp hrun
  obtain ⟨h₃, h₄⟩ := Bool.and_eq_true_iff.mp hboth
  obtain ⟨c, status, reply, hd, hid⟩ := decided_of_hasDecided h₃
  obtain ⟨c', status', reply', hd', hid'⟩ := decided_of_hasDecided h₄
  have heq := (hclaim _ _ contestedRequest p hp).one contestedRequest.length p 3 4 c c' status
    status' reply reply' (by rw [List.take_length]; exact hp) hd hd' (hid.trans hid'.symm)
  cases heq

theorem SavesSpeakerRequest.first {hist : List VoiceExchange} {cmd : Command}
    (h : SavesSpeakerRequest hist request cmd) : ∀ x ∈ hist, savedSpeakerRequest x = none := by
  have decides : ∀ {c status}, Decides hist request c status →
      ∀ x ∈ hist, savedSpeakerRequest x = none := by
    rintro c status ⟨t, room, request₀, rfl, -⟩
    simp [savedSpeakerRequest]
  cases cmd with
  | requestToSpeak c =>
    obtain ⟨t, id, room, rfl, -⟩ := h
    simp [savedSpeakerRequest]
  | approveSpeakerRequest c => exact decides h
  | declineSpeakerRequest c => exact decides h
  | _ => cases h

/-- A command saves one request. -/
theorem request_saved_once (h : (s.system I).run ms = some p) :
    Always (fun older e => ∀ k request, requestSaves e = some (k, request) →
      ∀ f ∈ older, client f = client e → requestSaves f = none) p.trace := by
  refine (run_asks h).mono ?_
  intro older e hasks k request hw f hf hi
  obtain ⟨hx, -⟩ := savedSpeakerRequest_eq_some.mp hw
  rw [hx] at hasks
  exact SavesSpeakerRequest.first hasks _ (mem_threadHistory.mpr ⟨f, hf, hi, rfl⟩)

/-- **Commands in turn** neither outdate a check nor override a decision. -/
theorem serial_requests {jobs : List (Command × List Env)} (h : (s.system I).serial jobs = some p) :
    NoOutdatedCheck p.trace ∧ NoOverriddenDecision p.trace := by
  obtain ⟨ms, hms⟩ := System.serial_isRun h
  have honce := request_saved_once hms
  rw [always_iff] at honce
  constructor
  · rw [NoOutdatedCheck, always_iff]
    rintro newer e _ ht c k request mid r rest - hw rfl hi - f hf k' saved - hwf - - -
    have hthread := System.serial_between h ht hi f hf
    rw [honce newer e _ ht k request hw f (by simp [hf]) hthread] at hwf
    cases hwf
  · rw [NoOverriddenDecision, always_iff]
    rintro newer e _ ht c status k request mid r rest request₀ - hw rfl hi - f hf saved hwf
    have hthread := System.serial_between h ht hi f hf
    rw [honce newer e _ ht k request hw f (by simp [hf]) hthread] at hwf
    cases hwf

theorem decided_once_promotion :
    ∃ ms p, (sampleService.system (sampleInfra fun _ => false)).run ms = some p ∧
      (∃ c status reply, Decided p 3 c status reply) ∧
      DecidedOnce sampleService (sampleInfra fun _ => false) ms := by
  have hrun : ((sampleService.system (sampleInfra fun _ => false)).serial
      (openRoom ++ promotion)).any (fun p => hasDecided p 3 sampleRequest) = true := by
    decide +kernel
  obtain ⟨p, hp, hdecided⟩ := (Option.any_eq_true _ _).mp hrun
  obtain ⟨c, status, reply, hd, -⟩ := decided_of_hasDecided hdecided
  obtain ⟨ms, hms⟩ := System.serial_isRun hp
  exact ⟨ms, p, hms, ⟨c, status, reply, hd⟩, decided_once _ _ _ p hms (serial_requests hp).2⟩

end WaveCast
