import WaveCast.Contracts

/-!
# The in-process backends

`memory.Store` (`internal/infra/memory/store.go`) and `NoopPresenceStore`
(`internal/infra/redis/noop.go`), both as interpretations of the service's
interfaces. `World` puts them together with the bus, the job queue and the id
generator, and `World.exec` executes one call.

The surroundings choose, for each call, the time, a fresh ULID, the order in
which a loop over a map visits it, and whether a component that can fail does.
-/

namespace WaveCast

/-! ## The memory store -/

structure Store where
  rooms : Table Room
  listenerSessions : Table ListenerSession
  participantSessions : Table ParticipantSession
  speakerRequests : Table SpeakerRequest
  speakingBlocks : Table SpeakingBlock
  recordings : Table RoomRecording
  reportsByRoom : Table RoomReport
  events : List VoiceEvent

namespace Store

def empty : Store := ⟨∅, ∅, ∅, ∅, ∅, ∅, ∅, []⟩

/-- The result of a lookup, or the error of a missing key. -/
def found {V : Type} (v : Option V) (notFound : AppError) : Except AppError V :=
  match v with
  | some v => .ok v
  | none => .error notFound

/-- `findSpeakerRequest`, on the requests in the order of the loop. -/
def findSpeakerRequest (requests : List SpeakerRequest) (roomID userID : String)
    (status : SpeakerRequestStatus) : Except AppError SpeakerRequest :=
  found (requests.find? fun r => r.roomID = roomID && r.userID = userID && r.status = status)
    .speakerRequestNotFound

/-- The seconds a session adds to the listening time of a report made at `now`. -/
def listeningSeconds (now : Time) (s : ListenerSession) : Int :=
  let fin := s.leftAt.getD now
  if fin > s.joinedAt then Duration.seconds (Time.sub fin s.joinedAt) else 0

/-- `ReportStats`, on the sessions of the store. -/
def reportStats (now : Time) (listeners : List ListenerSession)
    (participants : List ParticipantSession) (roomID : String) : ReportStats :=
  let ls := listeners.filter (·.roomID = roomID)
  let ps := participants.filter fun p => p.roomID = roomID && roleUsesLiveKit p.role
  { uniqueListeners := (ls.map (·.userID)).toFinset.card
    uniqueSpeakers := (ps.map (·.userID)).toFinset.card
    totalJoinEvents := ls.length
    peakConcurrentListeners := (ls.filter (·.status = .active)).length
    totalListeningSeconds := (ls.map (listeningSeconds now)).sum
    totalSpeakingSeconds := 0 }

/-- One method of the store. `order` and `order'` are the orders in which a
method that loops over a map visits its first and its second one. -/
def step (now : Time) (order order' : List String) :
    (c : StoreCall) → Store → Option (Except AppError c.Result × Store)
  | .saveRoom room, s => some (.ok (), { s with rooms := s.rooms.insert room.id room })
  | .getRoom roomID, s => some (found (s.rooms.lookup roomID) .roomNotFound, s)
  | .saveListenerSession session, s =>
      some (.ok (), { s with listenerSessions := s.listenerSessions.insert session.id session })
  | .getListenerSession sessionID, s =>
      some (found (s.listenerSessions.lookup sessionID) .listenerSessionNotFound, s)
  | .listActiveListenerSessions roomID, s =>
      (s.listenerSessions.range order).map fun sessions =>
        (.ok (sessions.filter fun x => x.roomID = roomID && x.status = .active), s)
  | .listActiveListenerSessionsByUser roomID userID, s =>
      (s.listenerSessions.range order).map fun sessions =>
        (.ok (sessions.filter fun x =>
          x.roomID = roomID && x.userID = userID && x.status = .active), s)
  | .listStaleListenerSessions cutoff limit, s =>
      (s.listenerSessions.range order).map fun sessions =>
        let stale := sessions.filter fun x => x.status = .active && x.lastHeartbeatAt < cutoff
        (.ok (if limit > 0 then stale.take limit.toNat else stale), s)
  | .countActiveListeners roomID, s =>
      (s.listenerSessions.range order).map fun sessions =>
        (.ok (sessions.filter fun x => x.roomID = roomID && x.status = .active).length, s)
  | .saveParticipantSession session, s =>
      some (.ok (),
        { s with participantSessions := s.participantSessions.insert session.id session })
  | .countActiveParticipantSessions roomID, s =>
      (s.participantSessions.range order).map fun sessions =>
        (.ok (sessions.filter fun x => x.roomID = roomID && x.status = .active).length, s)
  | .saveSpeakerRequest request, s =>
      some (.ok (), { s with speakerRequests := s.speakerRequests.insert request.id request })
  | .getSpeakerRequest requestID, s =>
      some (found (s.speakerRequests.lookup requestID) .speakerRequestNotFound, s)
  | .findPendingSpeakerRequest roomID userID, s =>
      (s.speakerRequests.range order).map fun requests =>
        (findSpeakerRequest requests roomID userID .pending, s)
  | .findApprovedSpeakerRequest roomID userID, s =>
      (s.speakerRequests.range order).map fun requests =>
        (findSpeakerRequest requests roomID userID .approved, s)
  | .saveSpeakingBlock block, s =>
      some (.ok (), { s with speakingBlocks := s.speakingBlocks.insert block.id block })
  | .getActiveSpeakingBlock roomID userID, s =>
      (s.speakingBlocks.range order).map fun blocks =>
        (found (blocks.find? fun b =>
          b.roomID = roomID && b.userID = userID && b.unblockedAt = none) .speakingBlockNotFound, s)
  | .saveRecording recording, s =>
      some (.ok (), { s with recordings := s.recordings.insert recording.id recording })
  | .getRecording recordingID, s =>
      some (found (s.recordings.lookup recordingID) .recordingNotFound, s)
  | .listRecordings roomID, s =>
      (s.recordings.range order).map fun recordings =>
        (.ok (recordings.filter (·.roomID = roomID)), s)
  | .saveReport report, s =>
      some (.ok (), { s with reportsByRoom := s.reportsByRoom.insert report.roomID report })
  | .getReport roomID, s => some (found (s.reportsByRoom.lookup roomID) .reportNotFound, s)
  | .reportStats roomID, s =>
      (s.listenerSessions.range order).bind fun listeners =>
        (s.participantSessions.range order').map fun participants =>
          (.ok (reportStats now listeners participants roomID), s)
  | .appendEvent event, s => some (.ok (), { s with events := s.events ++ [event] })

end Store

/-! ## The in-process presence store -/

structure Presence where
  listeners : Table (Finset String)
  participants : Table (Finset String)

namespace Presence

def empty : Presence := ⟨∅, ∅⟩

/-- The session ids under a room; a missing room has none. -/
def members (t : Table (Finset String)) (roomID : String) : Finset String :=
  (t.lookup roomID).getD ∅

def mark (t : Table (Finset String)) (roomID sessionID : String) : Table (Finset String) :=
  t.insert roomID (insert sessionID (members t roomID))

/-- `delete(m[roomID], sessionID)`: nothing happens when the room is missing. -/
def unmark (t : Table (Finset String)) (roomID sessionID : String) : Table (Finset String) :=
  match t.lookup roomID with
  | some ids => t.insert roomID (ids.erase sessionID)
  | none => t

theorem members_insert (t : Table (Finset String)) (roomID roomID' : String)
    (ids : Finset String) : members (t.insert roomID ids) roomID' =
      if roomID' = roomID then ids else members t roomID' := by
  unfold members
  rw [Table.lookup_insert_ite]
  split <;> rfl

theorem members_mark (t : Table (Finset String)) (roomID roomID' sessionID : String) :
    members (mark t roomID sessionID) roomID' =
      if roomID' = roomID then insert sessionID (members t roomID') else members t roomID' := by
  rw [mark, members_insert]
  split
  · subst roomID'
    rfl
  · rfl

theorem members_unmark (t : Table (Finset String)) (roomID roomID' sessionID : String) :
    members (unmark t roomID sessionID) roomID' =
      if roomID' = roomID then (members t roomID').erase sessionID else members t roomID' := by
  unfold unmark
  cases hids : t.lookup roomID with
  | some ids =>
    simp only [members_insert]
    split
    · subst roomID'
      simp [members, hids]
    · rfl
  | none =>
    dsimp only
    split
    · subst roomID'
      simp [members, hids]
    · rfl

def step : (c : PresenceCall) → Presence → c.Result × Presence
  | .markListenerActive roomID sessionID _ _, p =>
      ((), { p with listeners := mark p.listeners roomID sessionID })
  | .touchListener roomID sessionID _, p =>
      ((), { p with listeners := mark p.listeners roomID sessionID })
  | .markListenerInactive roomID sessionID, p =>
      ((), { p with listeners := unmark p.listeners roomID sessionID })
  | .activeListenerCount roomID, p => ((members p.listeners roomID).card, p)
  | .markParticipantActive roomID sessionID _ _, p =>
      ((), { p with participants := mark p.participants roomID sessionID })
  | .markParticipantInactive roomID sessionID, p =>
      ((), { p with participants := unmark p.participants roomID sessionID })
  | .activeParticipantCount roomID, p => ((members p.participants roomID).card, p)

end Presence

/-! ## The world of the service -/

structure World where
  store : Store
  presence : Presence
  /-- The events the bus accepted, oldest first. -/
  bus : List VoiceEvent
  /-- The jobs the queue accepted, oldest first. -/
  queue : List JobRequest
  /-- The ULIDs drawn so far. -/
  issued : List Ulid

def World.empty : World := ⟨.empty, .empty, [], [], []⟩

/-- What the surroundings choose for one call. -/
structure Env where
  now : Time
  ulid : Ulid
  order : List String
  order' : List String
  fails : Bool

/-- The components behind the interfaces: which calls may fail, and what the
token issuers and the URL signer answer when they do not. -/
structure Infra where
  mayFail : Effect → Bool
  speakerToken : SpeakerTokenInput → SpeakerMediaDescriptor
  connectionToken : String → String
  subscriptionToken : String → String → String
  playbackURL : StorageObject → Duration → String

/-- The error of a component that failed. -/
def unavailable : AppError := .external "unavailable"

namespace World

/-- The failing answer of a call; the clock and the id generator never fail. -/
def failure : (e : Effect) → Option e.Answer
  | .now => none
  | .newID _ => none
  | .store _ => some (.error unavailable)
  | .presence _ => some (.error unavailable)
  | .publish _ => some (.error unavailable)
  | .enqueue _ => some (.error unavailable)
  | .issueSpeakerToken _ => some (.error unavailable)
  | .connectionToken _ => some (.error unavailable)
  | .subscriptionToken _ _ => some (.error unavailable)
  | .playbackURL _ _ => some (.error unavailable)

/-- A call that does not fail. -/
def perform (I : Infra) (env : Env) : (e : Effect) → World → Option (e.Answer × World)
  | .now, w => some (env.now, w)
  | .newID pfx, w =>
      if env.ulid ∈ w.issued then none
      else some (newID pfx env.ulid, { w with issued := env.ulid :: w.issued })
  | .store c, w =>
      (w.store.step env.now env.order env.order' c).map fun r => (r.1, { w with store := r.2 })
  | .presence c, w => some (.ok (w.presence.step c).1, { w with presence := (w.presence.step c).2 })
  | .publish event, w => some (.ok (), { w with bus := w.bus ++ [event] })
  | .enqueue job, w => some (.ok (), { w with queue := w.queue ++ [job] })
  | .issueSpeakerToken input, w => some (.ok (I.speakerToken input), w)
  | .connectionToken userID, w => some (.ok (I.connectionToken userID), w)
  | .subscriptionToken userID channel, w => some (.ok (I.subscriptionToken userID channel), w)
  | .playbackURL object ttl, w => some (.ok (I.playbackURL object ttl), w)

/-- One call. A call that fails leaves the world as it is. -/
def exec (I : Infra) (env : Env) (e : Effect) (w : World) : Option (e.Answer × World) :=
  if env.fails then
    if I.mayFail e then (failure e).map fun a => (a, w) else none
  else perform I env e w

end World

end WaveCast
