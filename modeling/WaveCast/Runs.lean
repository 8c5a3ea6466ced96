import WaveCast.Interaction.Pool
import WaveCast.Memory
import WaveCast.Service

/-!
# Runs of the service

The service over the in-process backends as a system of programs. `VoiceRun`s
interleave the calls of any number of commands; `serial` runs execute one
command after the other.

A stored record is the one its newest save wrote (`lookup_rooms` and its
siblings), so a property of stored records is a property of the saves in the
trace.
-/

namespace WaveCast

open Interaction

abbrev VoicePool := Pool effects Command Env AppError Reply World
abbrev VoiceEntry := Entry effects Command Env
abbrev VoiceExchange := Exchange effects
abbrev VoiceMove := Move Command Env

def Service.system (s : Service) (I : Infra) : System effects Command Env AppError Reply World :=
  ⟨s.program, World.exec I, .empty⟩

/-! ## What one call does -/

namespace World

variable {I : Infra} {env : Env} {w w' : World}

theorem exec_cases {e : Effect} {a : e.Answer} (h : exec I env e w = some (a, w')) :
    (env.fails = true ∧ I.mayFail e = true ∧ failure e = some a ∧ w' = w) ∨
    (env.fails = false ∧ perform I env e w = some (a, w')) := by
  simp only [exec] at h
  split at h
  · split at h
    · obtain ⟨a', ha', he⟩ := Option.map_eq_some_iff.mp h
      cases he
      exact .inl ⟨‹_›, ‹_›, ha', rfl⟩
    · cases h
  · rename_i hf
    exact .inr ⟨by simpa using hf, h⟩

/-- The id generator draws a ULID it has not drawn before. -/
theorem exec_newID {pfx id : String} : exec I env (.newID pfx) w = some (id, w') →
    env.ulid ∉ w.issued ∧ id = newID pfx env.ulid ∧
      w' = { w with issued := env.ulid :: w.issued } := by
  intro h
  rcases exec_cases h with ⟨-, -, h, -⟩ | ⟨-, h⟩
  · cases h
  · simp only [perform] at h
    split at h
    · cases h
    · cases h; exact ⟨‹_›, rfl, rfl⟩

/-- A call of the store either fails and changes nothing, or is a step of the
memory store. -/
theorem exec_store {c : StoreCall} {a : Except AppError c.Result}
    (h : exec I env (.store c) w = some (a, w')) :
    (a = .error unavailable ∧ w' = w) ∨
    ∃ st, w.store.step env.now env.order env.order' c = some (a, st) ∧
      w' = { w with store := st } := by
  rcases exec_cases h with ⟨-, -, hf, hw⟩ | ⟨-, h⟩
  · simp only [failure, Option.some.injEq] at hf
    exact .inl ⟨hf.symm, hw⟩
  · obtain ⟨⟨a', st⟩, hs, he⟩ := Option.map_eq_some_iff.mp h
    cases he
    exact .inr ⟨st, hs, rfl⟩

/-- Only calls of the store change the store. -/
theorem exec_store_eq {e : Effect} {a : e.Answer} (h : exec I env e w = some (a, w'))
    (he : ∀ c, e ≠ .store c) : w'.store = w.store := by
  rcases exec_cases h with ⟨-, -, -, rfl⟩ | ⟨-, h⟩
  · rfl
  · cases e with
    | store c => exact absurd rfl (he c)
    | newID pfx =>
      simp only [perform] at h
      split at h
      · cases h
      · cases h; rfl
    | _ => cases h; rfl

end World

namespace World

variable {I : Infra} {env : Env} {w w' : World}

theorem found_eq_ok {V : Type} {v : Option V} {e : AppError} {x : V} :
    Store.found v e = .ok x ↔ v = some x := by
  cases v <;> simp [Store.found]

/-- A successful call of the store is a step of the memory store. -/
theorem exec_store_ok {c : StoreCall} {x : c.Result}
    (h : exec I env (.store c) w = some (.ok x, w')) :
    ∃ st, w.store.step env.now env.order env.order' c = some (.ok x, st) ∧
      w' = { w with store := st } := by
  rcases exec_store h with ⟨h, -⟩ | h
  · cases h
  · exact h

theorem exec_getRoom {roomID : String} {room : Room}
    (h : exec I env (.store (.getRoom roomID)) w = some (.ok room, w')) :
    w.store.rooms.lookup roomID = some room := by
  obtain ⟨st, hs, -⟩ := exec_store_ok h
  simp only [Store.step, Option.some.injEq, Prod.mk.injEq, found_eq_ok] at hs
  exact hs.1

theorem exec_getListenerSession {sessionID : String} {session : ListenerSession}
    (h : exec I env (.store (.getListenerSession sessionID)) w = some (.ok session, w')) :
    w.store.listenerSessions.lookup sessionID = some session := by
  obtain ⟨st, hs, -⟩ := exec_store_ok h
  simp only [Store.step, Option.some.injEq, Prod.mk.injEq, found_eq_ok] at hs
  exact hs.1

theorem exec_getSpeakerRequest {requestID : String} {request : SpeakerRequest}
    (h : exec I env (.store (.getSpeakerRequest requestID)) w = some (.ok request, w')) :
    w.store.speakerRequests.lookup requestID = some request := by
  obtain ⟨st, hs, -⟩ := exec_store_ok h
  simp only [Store.step, Option.some.injEq, Prod.mk.injEq, found_eq_ok] at hs
  exact hs.1

theorem findSpeakerRequest_ok {requests : List SpeakerRequest} {roomID userID : String}
    {status : SpeakerRequestStatus} {request : SpeakerRequest}
    (h : Store.findSpeakerRequest requests roomID userID status = .ok request) :
    request ∈ requests ∧ request.roomID = roomID ∧ request.userID = userID ∧
      request.status = status := by
  simp only [Store.findSpeakerRequest, found_eq_ok] at h
  have hp := List.find?_some h
  simp only [Bool.and_eq_true, decide_eq_true_eq] at hp
  exact ⟨List.mem_of_find?_eq_some h, hp.1.1, hp.1.2, hp.2⟩

theorem exec_findApproved {roomID userID : String} {request : SpeakerRequest}
    (h : exec I env (.store (.findApprovedSpeakerRequest roomID userID)) w =
      some (.ok request, w')) :
    (∃ k, w.store.speakerRequests.lookup k = some request) ∧ request.roomID = roomID ∧
      request.userID = userID ∧ request.status = .approved := by
  obtain ⟨st, hs, -⟩ := exec_store_ok h
  obtain ⟨requests, hr, hf⟩ := Option.map_eq_some_iff.mp hs
  have := findSpeakerRequest_ok (Prod.mk.inj hf).1
  exact ⟨(Table.mem_range hr request).mp this.1, this.2⟩

end World

/-! ## Saves -/

/-- The room a call saved, under its id. -/
def savedRoom : VoiceExchange → Option (String × Room)
  | ⟨.store (.saveRoom room), .ok _⟩ => some (room.id, room)
  | _ => none

def readRoom : VoiceExchange → Option (String × Room)
  | ⟨.store (.getRoom roomID), .ok room⟩ => some (roomID, room)
  | _ => none

theorem readRoom_eq_some {x : VoiceExchange} {k : String} {room : Room} :
    readRoom x = some (k, room) ↔ x = ⟨.store (.getRoom k), .ok room⟩ := by
  constructor
  · intro h
    unfold readRoom at h
    split at h
    · cases h; rfl
    · cases h
  · rintro rfl
    rfl

def savedListenerSession : VoiceExchange → Option (String × ListenerSession)
  | ⟨.store (.saveListenerSession session), .ok _⟩ => some (session.id, session)
  | _ => none

def savedSpeakerRequest : VoiceExchange → Option (String × SpeakerRequest)
  | ⟨.store (.saveSpeakerRequest request), .ok _⟩ => some (request.id, request)
  | _ => none

def savedSpeakingBlock : VoiceExchange → Option (String × SpeakingBlock)
  | ⟨.store (.saveSpeakingBlock block), .ok _⟩ => some (block.id, block)
  | _ => none

/-- A table after a call: the saved record goes under its id. -/
def Table.afterSave {V : Type} (t : Table V) : Option (String × V) → Table V
  | some (k, v) => t.insert k v
  | none => t

theorem Table.lookup_afterSave {V : Type} (t : Table V) (saved : Option (String × V))
    (k : String) : (t.afterSave saved).lookup k =
      match saved with
      | some (k', v) => if k' = k then some v else t.lookup k
      | none => t.lookup k := by
  cases saved with
  | none => rfl
  | some kv => simp only [afterSave, lookup_insert_ite, eq_comm]

section Saves

variable {I : Infra} {env : Env} {w w' : World}

private theorem step_tables {now : Time} {order order' : List String} {c : StoreCall}
    {st st' : Store} {a : Except AppError c.Result}
    (h : st.step now order order' c = some (a, st')) :
    st'.rooms = st.rooms.afterSave (savedRoom ⟨.store c, a⟩) ∧
    st'.listenerSessions = st.listenerSessions.afterSave (savedListenerSession ⟨.store c, a⟩) ∧
    st'.speakerRequests = st.speakerRequests.afterSave (savedSpeakerRequest ⟨.store c, a⟩) ∧
    st'.speakingBlocks = st.speakingBlocks.afterSave (savedSpeakingBlock ⟨.store c, a⟩) := by
  cases c <;> simp only [Store.step, Option.map_eq_some_iff, Option.bind_eq_some_iff,
    Option.some.injEq, Prod.mk.injEq] at h
  case reportStats => obtain ⟨_, -, _, -, -, rfl⟩ := h; exact ⟨rfl, rfl, rfl, rfl⟩
  all_goals first
    | (obtain ⟨rfl, rfl⟩ := h; exact ⟨rfl, rfl, rfl, rfl⟩)
    | (obtain ⟨_, -, -, rfl⟩ := h; exact ⟨rfl, rfl, rfl, rfl⟩)

/-- A call changes a table of the store by the record it saves, if any. -/
theorem World.exec_tables {e : Effect} {a : e.Answer} (h : World.exec I env e w = some (a, w')) :
    w'.store.rooms = w.store.rooms.afterSave (savedRoom ⟨e, a⟩) ∧
    w'.store.listenerSessions =
      w.store.listenerSessions.afterSave (savedListenerSession ⟨e, a⟩) ∧
    w'.store.speakerRequests = w.store.speakerRequests.afterSave (savedSpeakerRequest ⟨e, a⟩) ∧
    w'.store.speakingBlocks = w.store.speakingBlocks.afterSave (savedSpeakingBlock ⟨e, a⟩) := by
  by_cases he : ∃ c, e = .store c
  · obtain ⟨c, rfl⟩ := he
    rcases World.exec_store h with ⟨rfl, rfl⟩ | ⟨st, hs, rfl⟩
    · cases c <;> exact ⟨rfl, rfl, rfl, rfl⟩
    · exact step_tables hs
  · have hst := World.exec_store_eq h fun c hc => he ⟨c, hc⟩
    rw [hst]
    cases e with
    | store c => exact absurd ⟨c, rfl⟩ he
    | _ => exact ⟨rfl, rfl, rfl, rfl⟩

end Saves

/-! ## Stored records -/

section Stored

variable {s : Service} {I : Infra} {t : List VoiceEntry} {w : World}

/-- A table that starts empty and changes by the saved records holds, under
each key, what was saved there last. -/
theorem lookup_eq_lastWrite {V : Type} (table : World → Table V)
    (saved : VoiceExchange → Option (String × V)) (hinit : table .empty = ∅)
    (hstep : ∀ env e a w w', World.exec I env e w = some (a, w') →
      table w' = (table w).afterSave (saved ⟨e, a⟩))
    (h : (s.system I).Replays t w) (k : String) :
    (table w).lookup k = lastWrite (fun e : VoiceEntry => saved e.exchange) k t := by
  refine System.replays_induction (I := fun t w =>
    (table w).lookup k = lastWrite (fun e : VoiceEntry => saved e.exchange) k t) ?_ ?_ h
  · exact (congrArg (Finmap.lookup k) hinit).trans (Finmap.lookup_empty k)
  · intro e older w₀ w₁ _ ih he
    rw [hstep _ _ _ _ _ he, Table.lookup_afterSave, ih]
    simp only [lastWrite]
    cases saved e.exchange <;> rfl

abbrev roomSaves (e : VoiceEntry) : Option (String × Room) := savedRoom e.exchange
abbrev roomReads (e : VoiceEntry) : Option (String × Room) := readRoom e.exchange
abbrev sessionSaves (e : VoiceEntry) : Option (String × ListenerSession) :=
  savedListenerSession e.exchange
abbrev requestSaves (e : VoiceEntry) : Option (String × SpeakerRequest) :=
  savedSpeakerRequest e.exchange
abbrev blockSaves (e : VoiceEntry) : Option (String × SpeakingBlock) :=
  savedSpeakingBlock e.exchange

theorem lookup_rooms (h : (s.system I).Replays t w) (k : String) :
    w.store.rooms.lookup k = lastWrite roomSaves k t :=
  lookup_eq_lastWrite (fun w => w.store.rooms) savedRoom rfl
    (fun _ _ _ _ _ h => (World.exec_tables h).1) h k

theorem lookup_listenerSessions (h : (s.system I).Replays t w) (k : String) :
    w.store.listenerSessions.lookup k = lastWrite sessionSaves k t :=
  lookup_eq_lastWrite (fun w => w.store.listenerSessions) savedListenerSession rfl
    (fun _ _ _ _ _ h => (World.exec_tables h).2.1) h k

theorem lookup_speakerRequests (h : (s.system I).Replays t w) (k : String) :
    w.store.speakerRequests.lookup k = lastWrite requestSaves k t :=
  lookup_eq_lastWrite (fun w => w.store.speakerRequests) savedSpeakerRequest rfl
    (fun _ _ _ _ _ h => (World.exec_tables h).2.2.1) h k

theorem lookup_speakingBlocks (h : (s.system I).Replays t w) (k : String) :
    w.store.speakingBlocks.lookup k = lastWrite blockSaves k t :=
  lookup_eq_lastWrite (fun w => w.store.speakingBlocks) savedSpeakingBlock rfl
    (fun _ _ _ _ _ h => (World.exec_tables h).2.2.2) h k

/-- A room that was read is the one saved last. -/
theorem rooms_coherent (h : (s.system I).Replays t w) : Coherent roomSaves roomReads t := by
  refine System.coherent_of_view (fun t w hw k => lookup_rooms hw k) ?_ h
  rintro ⟨i, cmd, env, x⟩ w₀ w₁ he k room hr
  obtain rfl := readRoom_eq_some.mp hr
  exact World.exec_getRoom he

end Stored

/-! ## A small deployment

Used for concrete runs. -/

def sampleService : Service where
  hasPresence := true
  hasJobQueue := true
  hasSigner := false
  media :=
    { passiveMedia := fun roomID => ⟨true, "llhls", "hls", roomID, roomID, 3000, 2000, 500⟩
      listenerDescriptor := fun room sessionID _ =>
        ⟨"llhls", room.passive.cdnPlaybackURL, sessionID, 15, "", "", 3000⟩ }
  cfg :=
    { realtimeURL := "wss://realtime", heartbeatInterval := 15 * second
      listenerSessionTimeout := 60 * second, recordingEnabled := true, recordingRetentionDays := 30
      s3Bucket := "bucket", s3Region := "region", s3RecordingsPrefix := "recordings"
      s3PresignedURLTTL := 900 * second }

def sampleInfra (mayFail : Effect → Bool) : Infra where
  mayFail
  speakerToken := fun input => ⟨"livekit", "wss://livekit", "token", input.roomName, input.identity⟩
  connectionToken := fun userID => userID
  subscriptionToken := fun userID channel => userID ++ channel
  playbackURL := fun object _ => object.key

/-- A call that succeeds, draws `n` if it draws, and visits `order` if it loops. -/
def sampleEnv (n : Fin 100) (order : List String) : Env := ⟨n, sampleUlid n, order, [], false⟩

/-- A call that fails. -/
def failingEnv : Env := { sampleEnv 0 [] with fails := true }

/-- The calls are made at the time `t`. -/
def callsAt (t : Time) (envs : List Env) : List Env := envs.map fun env => { env with now := t }

/-- `k` calls that draw nothing and loop over nothing. -/
def plain (k : ℕ) : List Env := List.replicate k (sampleEnv 0 [])

/-- A call that draws `n`. -/
def drawing (n : Fin 100) : List Env := [sampleEnv n []]

/-- A call that visits `order`. -/
def visiting (order : List String) : List Env := [sampleEnv 0 order]

/-- An event is published: four calls, of which the first draws its id. -/
def publishing (n : Fin 100) : List Env := drawing n ++ plain 3

def sampleRoom : String := newID prefixRoom (sampleUlid 0)

/-- A room is created and started. -/
def openRoom : List (Command × List Env) :=
  [(.createRoom ⟨"title", "owner", [], ["moderator"], ""⟩,
      plain 1 ++ drawing 0 ++ drawing 1 ++ plain 1 ++ publishing 2),
   (.startRoom ⟨sampleRoom, "owner", ""⟩, plain 3 ++ publishing 3)]

/-- The moves of commands that run one after the other, from thread `i` on. -/
def movesFrom (i : ℕ) : List (Command × List Env) → List VoiceMove
  | [] => []
  | (cmd, envs) :: jobs => .start cmd :: envs.map (.call i) ++ movesFrom (i + 1) jobs

end WaveCast
