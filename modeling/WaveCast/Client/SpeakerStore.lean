import Mathlib
import WaveCast.Client.MockData
import WaveCast.Reducer.Runs

/-!
# The speaker store

`stores/speaker-store.ts`. `requestPending` mirrors whether the current user has
a pending request. `toggleRequest` and `removeSpeakerRequest` keep the two in
step, `addSpeakerRequest` does not look at who the person is: the store is
consistent exactly in the runs that never add the current user anew
(`requests_consistent_iff`).
-/

namespace WaveCast

namespace Client

structure SpeakerState where
  micEnabled : Bool
  requestPending : Bool
  speakerRequests : List SpeakerRequest

/-- The time and the random text are drawn. -/
def makeRequestId (now : Nat) (random : String) : String := toString now ++ "-" ++ random

def currentUserRequestId : String := "request_current_user"

def nowText : String := "Just now"

def toPendingRequest (now : Nat) (random : String) (person : Person) : SpeakerRequest where
  id := makeRequestId now random
  person := person
  message := person.name ++ " is requesting to speak."
  requestedAt := nowText
  status := .pending

/-- Some request of the person is pending. -/
def hasPendingRequest (requests : List SpeakerRequest) (personId : String) : Bool :=
  requests.any fun request => request.status = .pending && request.person.id = personId

/-- The store as it is created from the seeded requests. -/
def seededStore : SpeakerState where
  micEnabled := false
  requestPending := hasPendingRequest speakerRequests alex.id
  speakerRequests := speakerRequests.filter (·.status = .pending)

def toggleMic (state : SpeakerState) : SpeakerState :=
  { state with micEnabled := !state.micEnabled }

def toggleRequest (now : Nat) (random : String) (state : SpeakerState) : SpeakerState :=
  if hasPendingRequest state.speakerRequests alex.id then
    { state with
      requestPending := false
      speakerRequests := state.speakerRequests.filter (·.person.id ≠ alex.id) }
  else
    { state with
      requestPending := true
      speakerRequests := state.speakerRequests ++
        [{ toPendingRequest now random alex with id := currentUserRequestId }] }

def addSpeakerRequest (now : Nat) (random : String) (person : Person) (state : SpeakerState) :
    SpeakerState :=
  if hasPendingRequest state.speakerRequests person.id then state
  else
    { state with
      speakerRequests := state.speakerRequests ++ [toPendingRequest now random person] }

def removeSpeakerRequest (requestId : String) (state : SpeakerState) : SpeakerState :=
  match state.speakerRequests.find? (·.id = requestId) with
  | none => state
  | some request =>
    { state with
      requestPending := if request.person.id = alex.id then false else state.requestPending
      speakerRequests := state.speakerRequests.filter (·.id ≠ requestId) }

/-! ## The actions -/

/-- The actions of the store, with what they draw for a new id. -/
inductive SpeakerAction where
  | toggleMic
  | toggleRequest (now : Nat) (random : String)
  | addSpeakerRequest (now : Nat) (random : String) (person : Person)
  | removeSpeakerRequest (requestId : String)

def speakerStep (state : SpeakerState) : SpeakerAction → SpeakerState
  | .toggleMic => toggleMic state
  | .toggleRequest now random => toggleRequest now random state
  | .addSpeakerRequest now random person => addSpeakerRequest now random person state
  | .removeSpeakerRequest requestId => removeSpeakerRequest requestId state

/-- An id that is generated for a request is not the id of another one. -/
def FreshId (state : SpeakerState) : SpeakerAction → Prop
  | .addSpeakerRequest now random _ =>
    ∀ request ∈ state.speakerRequests, request.id ≠ makeRequestId now random
  | _ => True

/-- `requestPending` says whether the current user has a pending request. -/
def Mirrored (state : SpeakerState) : Prop :=
  state.requestPending = true ↔
    ∃ request ∈ state.speakerRequests, request.status = .pending ∧ request.person.id = alex.id

/-- No person has two pending requests. -/
def OnePending (state : SpeakerState) : Prop :=
  ∀ personId, state.speakerRequests.countP
    (fun request => request.status = .pending && request.person.id = personId) ≤ 1

/-- The action does not add the current user, unless a request is pending already. -/
def AddsOthers (state : SpeakerState) : SpeakerAction → Prop
  | .addSpeakerRequest _ _ person =>
    person.id = alex.id → hasPendingRequest state.speakerRequests alex.id
  | _ => True

/-! ## The list of requests -/

/-- What the actions keep of the list: every request is pending, ids and people
are distinct, and the id of the current user's request is nobody else's. -/
structure Orderly (requests : List SpeakerRequest) : Prop where
  pending : ∀ request ∈ requests, request.status = .pending
  ids : (requests.map (·.id)).Nodup
  people : (requests.map (·.person.id)).Nodup
  current : ∀ request ∈ requests, request.id = currentUserRequestId →
    request.person.id = alex.id

section

variable {requests : List SpeakerRequest}

theorem Orderly.hasPendingRequest_iff (h : Orderly requests) (personId : String) :
    hasPendingRequest requests personId ↔ ∃ request ∈ requests, request.person.id = personId := by
  simp only [hasPendingRequest, List.any_eq_true, Bool.and_eq_true, decide_eq_true_eq]
  constructor
  · rintro ⟨request, hmem, -, hperson⟩
    exact ⟨request, hmem, hperson⟩
  · rintro ⟨request, hmem, hperson⟩
    exact ⟨request, hmem, h.pending request hmem, hperson⟩

theorem Orderly.append (h : Orderly requests) {request : SpeakerRequest}
    (hstatus : request.status = .pending) (hid : ∀ r ∈ requests, r.id ≠ request.id)
    (hperson : ∀ r ∈ requests, r.person.id ≠ request.person.id)
    (hcurrent : request.id = currentUserRequestId → request.person.id = alex.id) :
    Orderly (requests ++ [request]) where
  pending := by simpa [or_imp, forall_and, hstatus] using h.pending
  ids := by
    simpa [List.nodup_append, h.ids] using hid
  people := by
    simpa [List.nodup_append, h.people] using hperson
  current := by simpa [or_imp, forall_and] using ⟨h.current, hcurrent⟩

theorem Orderly.filter (h : Orderly requests) (p : SpeakerRequest → Bool) :
    Orderly (requests.filter p) where
  pending request hmem := h.pending request (List.mem_of_mem_filter hmem)
  ids := h.ids.sublist (List.filter_sublist.map _)
  people := h.people.sublist (List.filter_sublist.map _)
  current request hmem := h.current request (List.mem_of_mem_filter hmem)

theorem Orderly.countP_le (h : Orderly requests) (personId : String) :
    requests.countP
      (fun request => request.status = .pending && request.person.id = personId) ≤ 1 := by
  have hone := List.nodup_iff_count_le_one.mp h.people personId
  rw [List.count, List.countP_map] at hone
  refine Nat.le_trans (List.countP_mono_left fun request _ hrequest => ?_) hone
  simp only [Bool.and_eq_true, decide_eq_true_eq] at hrequest
  simp [hrequest.2]

end

/-- A generated id has a hyphen in it. -/
theorem makeRequestId_ne (now : Nat) (random : String) :
    makeRequestId now random ≠ currentUserRequestId := by
  intro h
  have hmem : '-' ∈ (makeRequestId now random).toList := by simp [makeRequestId]
  rw [h] at hmem
  exact absurd hmem (by decide)

/-! ## Runs -/

section

variable {state : SpeakerState}

theorem orderly_step (a : SpeakerAction) (hfresh : FreshId state a)
    (h : Orderly state.speakerRequests) : Orderly (speakerStep state a).speakerRequests := by
  cases a with
  | toggleMic => exact h
  | toggleRequest now random =>
    rw [speakerStep, toggleRequest]
    split
    · exact h.filter _
    · next hnone =>
      rw [h.hasPendingRequest_iff, not_exists] at hnone
      have hother : ∀ r ∈ state.speakerRequests, r.person.id ≠ alex.id :=
        fun r hmem hperson => hnone r ⟨hmem, hperson⟩
      refine h.append rfl (fun r hmem hid => ?_) hother fun _ => rfl
      exact hother r hmem (h.current r hmem hid)
  | addSpeakerRequest now random person =>
    rw [speakerStep, addSpeakerRequest]
    split
    · exact h
    · next hnone =>
      rw [h.hasPendingRequest_iff, not_exists] at hnone
      refine h.append rfl hfresh (fun r hmem hperson => hnone r ⟨hmem, hperson⟩) fun hid => ?_
      exact absurd hid (makeRequestId_ne now random)
  | removeSpeakerRequest requestId =>
    rw [speakerStep, removeSpeakerRequest]
    split
    · exact h
    · exact h.filter _

theorem mirrored_iff (h : Orderly state.speakerRequests) :
    Mirrored state ↔
      state.requestPending = hasPendingRequest state.speakerRequests alex.id := by
  rw [Bool.eq_iff_iff, h.hasPendingRequest_iff, Mirrored]
  refine iff_congr Iff.rfl (exists_congr fun request => and_congr_right fun hmem => ?_)
  exact and_iff_right (h.pending request hmem)

theorem hasPendingRequest_append (requests : List SpeakerRequest) (request : SpeakerRequest)
    (personId : String) (hstatus : request.status = .pending) :
    hasPendingRequest (requests ++ [request]) personId =
      (hasPendingRequest requests personId || request.person.id = personId) := by
  simp [hasPendingRequest, hstatus]

/-- The request that is removed takes the current user's place with it. -/
theorem Orderly.hasPendingRequest_remove {requests : List SpeakerRequest} (h : Orderly requests)
    {request : SpeakerRequest} (hmem : request ∈ requests) :
    hasPendingRequest (requests.filter (·.id ≠ request.id)) alex.id =
      if request.person.id = alex.id then false else hasPendingRequest requests alex.id := by
  rw [Bool.eq_iff_iff, (h.filter _).hasPendingRequest_iff]
  split
  · next hcurrent =>
    simp only [Bool.false_eq_true, iff_false, not_exists, not_and]
    intro r hr hperson
    obtain ⟨hr, hid⟩ := List.mem_filter.mp hr
    have hsame : r = request :=
      List.inj_on_of_nodup_map h.people hr hmem (by rw [hperson, hcurrent])
    simp [hsame] at hid
  · next hother =>
    rw [h.hasPendingRequest_iff]
    refine exists_congr fun r => and_congr_left fun hperson => ?_
    rw [List.mem_filter, and_iff_left_iff_imp]
    intro hr
    have hid : r.id ≠ request.id := fun hid =>
      hother (List.inj_on_of_nodup_map h.ids hr hmem hid ▸ hperson)
    simpa using hid

theorem mirrored_step_iff (a : SpeakerAction) (hfresh : FreshId state a)
    (h : Orderly state.speakerRequests) (hmirrored : Mirrored state) :
    Mirrored (speakerStep state a) ↔ AddsOthers state a := by
  rw [mirrored_iff (orderly_step a hfresh h)]
  rw [mirrored_iff h] at hmirrored
  cases a with
  | toggleMic => simpa [speakerStep, toggleMic, AddsOthers] using hmirrored
  | toggleRequest now random =>
    simp only [speakerStep, toggleRequest, AddsOthers, iff_true]
    split
    · simp +contextual [hasPendingRequest]
    · rw [hasPendingRequest_append _ _ _ rfl]
      simp [toPendingRequest]
  | addSpeakerRequest now random person =>
    simp only [speakerStep, addSpeakerRequest, AddsOthers]
    by_cases hperson : person.id = alex.id
    · rw [hperson]
      split
      · next hpending => simp [hmirrored, hpending]
      · next hnone =>
        rw [hasPendingRequest_append _ _ _ rfl]
        simp [hmirrored, hnone, toPendingRequest, hperson]
    · split
      · simp [hmirrored, hperson]
      · rw [hasPendingRequest_append _ _ _ rfl]
        simp [hmirrored, toPendingRequest, hperson]
  | removeSpeakerRequest requestId =>
    simp only [speakerStep, removeSpeakerRequest, AddsOthers, iff_true]
    split
    · exact hmirrored
    · next request hfind =>
      have hid : request.id = requestId := by simpa using List.find?_some hfind
      subst hid
      rw [h.hasPendingRequest_remove (List.mem_of_find?_eq_some hfind), hmirrored]

end

theorem orderly_seeded : Orderly seededStore.speakerRequests where
  pending := by decide
  ids := by decide
  people := by decide
  current := by decide

/-- **The speaker store.** In every run from the seeded store whose generated ids
are fresh, all states mirror the current user's request and have one pending
request of a person at most iff no action adds the current user while the user
has no pending request. -/
theorem requests_consistent_iff (actions : List SpeakerAction)
    (hfresh : Reducer.EachAction speakerStep FreshId seededStore actions) :
    Reducer.EachState speakerStep (fun state => Mirrored state ∧ OnePending state) seededStore
        actions ↔
      Reducer.EachAction speakerStep AddsOthers seededStore actions := by
  have horderly : Reducer.EachState speakerStep (fun state => Orderly state.speakerRequests)
      seededStore actions :=
    Reducer.eachState_of orderly_seeded (fun _ a ha h => orderly_step a ha h) hfresh
  have hmirrored : Reducer.EachState speakerStep Mirrored seededStore actions ∧
        Reducer.EachAction speakerStep (fun _ _ => True) seededStore actions ↔
      Reducer.EachAction speakerStep AddsOthers seededStore actions := by
    refine Reducer.each_iff (hfresh.and horderly.eachAction) ?_ fun state a ha h => ?_
    · rw [mirrored_iff orderly_seeded]
      decide
    · rw [and_iff_left trivial, mirrored_step_iff a ha.1 ha.2 h]
  rw [← hmirrored]
  constructor
  · exact fun h => ⟨h.mono fun _ hs => hs.1, fun _ _ _ _ => trivial⟩
  · exact fun h => h.1.and (horderly.mono fun _ hs => hs.countP_le)

/-- The hand is raised and lowered between requests of others. -/
def sampleActions : List SpeakerAction :=
  [.addSpeakerRequest 1718000000000 "k3j9x2a" ⟨"user_carol", "Carol Davis", avatar 32⟩,
    .toggleRequest 1718000001000 "m1q8z7b", .addSpeakerRequest 1718000002000 "p5w4r6c" alex,
    .removeSpeakerRequest "request_wade", .toggleRequest 1718000003000 "t2y0u9d"]

theorem requests_consistent_sample :
    Reducer.EachState speakerStep (fun state => Mirrored state ∧ OnePending state) seededStore
      sampleActions := by
  refine (requests_consistent_iff sampleActions ?_).mpr ?_
  · simp only [sampleActions, Reducer.eachAction_cons, Reducer.eachAction_nil, FreshId, true_and,
      and_true]
    decide +kernel
  · simp only [sampleActions, Reducer.eachAction_cons, Reducer.eachAction_nil, AddsOthers,
      true_and, and_true]
    decide +kernel

/-- The current user is added like anyone else. -/
def addsAlex : SpeakerAction := .addSpeakerRequest 1718000000000 "k3j9x2a" alex

theorem requests_consistent_fails :
    Reducer.EachAction speakerStep FreshId seededStore [addsAlex] ∧
      ¬Mirrored (Reducer.run speakerStep seededStore [addsAlex]) := by
  constructor
  · simp only [Reducer.eachAction_cons, Reducer.eachAction_nil, addsAlex, FreshId, and_true]
    decide +kernel
  · have hpending : (Reducer.run speakerStep seededStore [addsAlex]).requestPending = false := by
      decide +kernel
    have hadded : ∃ request ∈ (Reducer.run speakerStep seededStore [addsAlex]).speakerRequests,
        request.status = .pending ∧ request.person.id = alex.id := by
      decide +kernel
    exact fun h => absurd (h.mpr hadded) (by simp [hpending])

end Client

end WaveCast
