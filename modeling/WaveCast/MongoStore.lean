import WaveCast.Memory
import WaveCast.Documents.Collection

/-!
# The store on MongoDB

`internal/infra/mongo/store.go`: every method of `mongo.Store` as operations on
collections of documents.

Instants are at the precision of the stores. A field that is left out of a
document when it is empty is empty when the document is read. A method is one
step: `ReportStats`, the only one with two queries, is taken to find no session
written between them.
-/

namespace WaveCast

open Documents

structure MongoStore where
  /-- `livekitRoomName` has a unique index. -/
  rooms : Collection (⟨Room.id, Room.liveKitRoomName⟩ : Schema Room String String)
  listenerSessions : Collection (.ofID ListenerSession.id)
  participantSessions : Collection (.ofID ParticipantSession.id)
  speakerRequests : Collection (.ofID SpeakerRequest.id)
  speakingBlocks : Collection (.ofID SpeakingBlock.id)
  recordings : Collection (.ofID RoomRecording.id)
  /-- `roomId` has a unique index. -/
  reports : Collection (⟨RoomReport.id, RoomReport.roomID⟩ : Schema RoomReport String String)
  /-- An event gets an `_id` from the server. -/
  events : List VoiceEvent

namespace MongoStore

def empty : MongoStore := ⟨.empty _, .empty _, .empty _, .empty _, .empty _, .empty _, .empty _, []⟩

def writeError : WriteError → AppError
  | .duplicateKey => .external "E11000 duplicate key error"
  | .immutableID => .external "the immutable field _id was found to have been altered"

section Shared

variable {V U : Type} [DecidableEq U] {S : Schema V String U}

/-- The answer to a write of one collection, and the collection after it. -/
def written (c : Collection S) : Except WriteError (Collection S) →
    Except AppError Unit × Collection S
  | .ok c' => (.ok (), c')
  | .error e => (.error (writeError e), c)

/-- `replace`: the document with the id is replaced, or inserted. -/
def replace (c : Collection S) (order : List String) (id : String) (doc : V) :
    Option (Except AppError Unit × Collection S) :=
  (c.replaceOne (fun v => S.id v = id) order doc).map (written c)

/-- `findOne` -/
def findOne (c : Collection S) (order : List String) (filter : V → Bool) (notFound : AppError) :
    Option (Except AppError V) :=
  (c.findOne filter order).map fun
    | some v => .ok v
    | none => .error notFound

end Shared

def findSpeakerRequest (s : MongoStore) (order : List String) (roomID userID : String)
    (status : SpeakerRequestStatus) : Option (Except AppError SpeakerRequest) :=
  findOne s.speakerRequests order
    (fun r => r.roomID = roomID && r.userID = userID && r.status = status) .speakerRequestNotFound

/-- What `ReportStats` counts in the sessions that its two queries have read. -/
def reportStats (now : Time) (listeners : List ListenerSession)
    (participants : List ParticipantSession) : ReportStats :=
  { uniqueListeners := (listeners.map (·.userID)).toFinset.card
    uniqueSpeakers :=
      ((participants.filter (roleUsesLiveKit ·.role)).map (·.userID)).toFinset.card
    totalJoinEvents := listeners.length
    peakConcurrentListeners := (listeners.filter (·.status = .active)).length
    totalListeningSeconds := (listeners.map (Store.listeningSeconds now)).sum
    totalSpeakingSeconds := 0 }

/-- One method of the store. `order` and `order'` are the orders in which the
server visits the documents of its first and its second query. The two queries
of `ReportStats` are assumed to see one state: the source makes them one after
the other, and a session saved in between is in the second only. -/
def step (now : Time) (order order' : List String) :
    (c : StoreCall) → MongoStore → Option (Except AppError c.Result × MongoStore)
  | .saveRoom room, s =>
      (replace s.rooms order room.id room).map fun r => (r.1, { s with rooms := r.2 })
  | .getRoom roomID, s =>
      (findOne s.rooms order (·.id = roomID) .roomNotFound).map fun r => (r, s)
  | .saveListenerSession session, s =>
      (replace s.listenerSessions order session.id session).map fun r =>
        (r.1, { s with listenerSessions := r.2 })
  | .getListenerSession sessionID, s =>
      (findOne s.listenerSessions order (·.id = sessionID) .listenerSessionNotFound).map fun r =>
        (r, s)
  | .listActiveListenerSessions roomID, s =>
      (s.listenerSessions.find (fun x => x.roomID = roomID && x.status = .active) order).map
        fun sessions => (.ok sessions, s)
  | .listActiveListenerSessionsByUser roomID userID, s =>
      (s.listenerSessions.find
        (fun x => x.roomID = roomID && x.userID = userID && x.status = .active) order).map
        fun sessions => (.ok sessions, s)
  | .listStaleListenerSessions cutoff limit, s =>
      (s.listenerSessions.find (fun x => x.status = .active && x.lastHeartbeatAt < cutoff)
        order).map fun sessions =>
          let sorted := sessions.insertionSort fun x y => x.lastHeartbeatAt ≤ y.lastHeartbeatAt
          (.ok (if limit > 0 then sorted.take limit.toNat else sorted), s)
  | .countActiveListeners roomID, s =>
      (s.listenerSessions.find (fun x => x.roomID = roomID && x.status = .active) order).map
        fun sessions => (.ok sessions.length, s)
  | .saveParticipantSession session, s =>
      (replace s.participantSessions order session.id session).map fun r =>
        (r.1, { s with participantSessions := r.2 })
  | .countActiveParticipantSessions roomID, s =>
      (s.participantSessions.find (fun x => x.roomID = roomID && x.status = .active) order).map
        fun sessions => (.ok sessions.length, s)
  | .saveSpeakerRequest request, s =>
      (replace s.speakerRequests order request.id request).map fun r =>
        (r.1, { s with speakerRequests := r.2 })
  | .getSpeakerRequest requestID, s =>
      (findOne s.speakerRequests order (·.id = requestID) .speakerRequestNotFound).map fun r =>
        (r, s)
  | .findPendingSpeakerRequest roomID userID, s =>
      (s.findSpeakerRequest order roomID userID .pending).map fun r => (r, s)
  | .findApprovedSpeakerRequest roomID userID, s =>
      (s.findSpeakerRequest order roomID userID .approved).map fun r => (r, s)
  | .saveSpeakingBlock block, s =>
      (replace s.speakingBlocks order block.id block).map fun r =>
        (r.1, { s with speakingBlocks := r.2 })
  | .getActiveSpeakingBlock roomID userID, s =>
      (findOne s.speakingBlocks order
        (fun b => b.roomID = roomID && b.userID = userID && b.unblockedAt = none)
        .speakingBlockNotFound).map fun r => (r, s)
  | .saveRecording recording, s =>
      (replace s.recordings order recording.id recording).map fun r =>
        (r.1, { s with recordings := r.2 })
  | .getRecording recordingID, s =>
      (findOne s.recordings order (·.id = recordingID) .recordingNotFound).map fun r => (r, s)
  | .listRecordings roomID, s =>
      (s.recordings.find (·.roomID = roomID) order).map fun recordings => (.ok recordings, s)
  | .saveReport report, s =>
      (s.reports.replaceOne (·.roomID = report.roomID) order report).map fun r =>
        ((written s.reports r).1, { s with reports := (written s.reports r).2 })
  | .getReport roomID, s =>
      (findOne s.reports order (·.roomID = roomID) .reportNotFound).map fun r => (r, s)
  | .reportStats roomID, s =>
      (s.listenerSessions.find (·.roomID = roomID) order).bind fun listeners =>
        (s.participantSessions.find (·.roomID = roomID) order').map fun participants =>
          (.ok (reportStats now listeners participants), s)
  | .appendEvent event, s => some (.ok (), { s with events := s.events ++ [event] })

end MongoStore

end WaveCast
