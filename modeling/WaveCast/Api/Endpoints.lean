import WaveCast.Interaction.Gateway
import WaveCast.Router

/-!
# The handlers of the API

`internal/transport/http/router.go`: a handler makes a command of the service
from the path, the headers and the decoded body of a request, and a response
of its outcome. The profile handlers keep their own state and are in
`WaveCast.Profiles`.
-/

namespace WaveCast

open Interaction

/-! ## Errors -/

/-- `Error()` -/
def AppError.message : AppError → String
  | invalidArgument => "invalid argument"
  | roomNotFound => "room not found"
  | roomNotLive => "room is not live"
  | invalidRoomState => "invalid room state"
  | permissionDenied => "permission denied"
  | speakerBlocked => "speaker is blocked"
  | speakingBlockNotFound => "speaking block not found"
  | speakerRequestNotFound => "speaker request not found"
  | listenerSessionNotFound => "listener session not found"
  | recordingNotFound => "recording not found"
  | recordingDisabled => "recording is disabled"
  | reportNotFound => "report not found"
  | conflict => "conflict"
  | external message => message

/-- `HTTPStatus` -/
def AppError.httpStatus : AppError → ℕ
  | invalidArgument => 400
  | roomNotFound | speakerRequestNotFound | speakingBlockNotFound => 404
  | listenerSessionNotFound | recordingNotFound | reportNotFound => 404
  | permissionDenied => 403
  | roomNotLive | invalidRoomState | speakerBlocked | recordingDisabled | conflict => 409
  | external _ => 500

namespace Api

/-! ## Requests -/

/-- What the decoder makes of a body: nothing, an error, or the fields. -/
inductive Body (α : Type) where
  | empty
  | invalid (message : String)
  | decoded (req : α)
  deriving DecidableEq

abbrev CreateRoomRequest := Router.CreateRoomRequest

/-- The zero value. -/
instance : Inhabited CreateRoomRequest := ⟨⟨"", "", [], []⟩⟩

structure ActorRequest where
  actorUserID : String
  reason : String
  deriving DecidableEq, Inhabited

structure UserRequest where
  userID : String
  sessionID : String
  leaveType : String
  deriving DecidableEq, Inhabited

structure StopRecordingRequest where
  actorUserID : String
  recordingID : String
  deriving DecidableEq, Inhabited

structure SubscriptionTokenRequest where
  userID : String
  channel : String
  deriving DecidableEq, Inhabited

/-- The handler a request is routed to, with the parameters of its path or query. -/
inductive Endpoint where
  | health
  | ready
  | createRoom (body : Body CreateRoomRequest)
  | getRoom (roomID : String)
  | startRoom (roomID : String) (body : Body ActorRequest)
  | finishRoom (roomID : String) (body : Body ActorRequest)
  | activeCounts (roomID : String)
  | joinRoom (roomID : String) (body : Body UserRequest)
  | leaveRoom (roomID : String) (body : Body UserRequest)
  | listenerHeartbeat (roomID sessionID : String) (body : Body UserRequest)
  | leaveListener (roomID sessionID : String) (body : Body UserRequest)
  | refreshPlaybackURL (roomID sessionID : String)
  | listenerStream (roomID : String)
  | requestToSpeak (roomID : String) (body : Body UserRequest)
  | approveSpeakerRequest (roomID requestID : String) (body : Body ActorRequest)
  | declineSpeakerRequest (roomID requestID : String) (body : Body ActorRequest)
  | createSpeakerSession (roomID : String) (body : Body UserRequest)
  | revokeSpeaker (roomID userID : String) (body : Body ActorRequest)
  | blockSpeaking (roomID userID : String) (body : Body ActorRequest)
  | unblockSpeaking (roomID userID : String) (body : Body ActorRequest)
  | removeParticipant (roomID userID : String) (body : Body ActorRequest)
  | startRecording (roomID : String) (body : Body ActorRequest)
  | stopRecording (roomID : String) (body : Body StopRecordingRequest)
  | listRecordings (roomID : String)
  | recordingPlaybackURL (roomID recordingID actorUserID : String)
  | notImplementedEvent
  | generateReport (roomID : String) (body : Body ActorRequest)
  | getReport (roomID : String)
  | realtimeToken (userID : String)
  | subscriptionToken (body : Body SubscriptionTokenRequest)
  | acceptedWebhook

structure Request where
  /-- `X-Request-ID`, empty if there is none. -/
  requestIDHeader : String
  /-- `X-User-ID`, empty if there is none. -/
  userIDHeader : String
  /-- What `ulid.Make` returns if the request has no id. -/
  ulid : Ulid
  endpoint : Endpoint

namespace Request

/-- `requestContext` -/
def correlationID (r : Request) : String :=
  if trimSpace r.requestIDHeader ≠ "" then trimSpace r.requestIDHeader else newID "corr" r.ulid

def userID (r : Request) (fallback : String) : String := Router.userID r.userIDHeader fallback

end Request

/-! ## Responses -/

inductive Content where
  | status (text : String)
  | reply (reply : Reply)
  | error (message : String) (status : ℕ)
  deriving DecidableEq

structure Response where
  status : ℕ
  /-- `X-Request-ID` -/
  requestID : String
  content : Content
  deriving DecidableEq

/-- `writeJSON` with a fixed text. -/
def Request.writeStatus (r : Request) (status : ℕ) (text : String) : Response :=
  ⟨status, r.correlationID, .status text⟩

def Request.writeError (r : Request) (message : String) (e : AppError) : Response :=
  ⟨e.httpStatus, r.correlationID, .error message e.httpStatus⟩

/-- An error of the decoder is joined to `ErrInvalidArgument`. -/
def Request.decodeJSON {α : Type} [Inhabited α] (r : Request) : Body α → Except Response α
  | .empty => .ok default
  | .invalid message =>
      .error (r.writeError (AppError.invalidArgument.message ++ "\n" ++ message) .invalidArgument)
  | .decoded req => .ok req

/-! ## Handlers -/

/-- The command of a request, or the response to it, and what is written of the
result of the command. -/
structure Handler where
  command : Except Response Command
  status : ℕ
  content : Reply → Content

/-- Answered without the service. -/
def atOnce (response : Response) : Handler := ⟨.error response, response.status, .reply⟩

/-- The result of the command is written as it is. -/
def pass (command : Except Response Command) (status : ℕ) : Handler := ⟨command, status, .reply⟩

/-- Only that the request was accepted is written. -/
def accept (command : Except Response Command) : Handler :=
  ⟨command, 202, fun _ => .status "accepted"⟩

section Handlers

variable (r : Request)

def health : Handler := atOnce (r.writeStatus 200 "ok")
def ready : Handler := atOnce (r.writeStatus 200 "ready")

def createRoom (body : Body CreateRoomRequest) : Handler :=
  pass ((r.decodeJSON body).map fun req =>
    .createRoom (Router.createRoomCommand r.userIDHeader r.correlationID req)) 201

def getRoom (roomID : String) : Handler := pass (.ok (.getRoom roomID)) 200

def startRoom (roomID : String) (body : Body ActorRequest) : Handler :=
  pass ((r.decodeJSON body).map fun req =>
    .startRoom ⟨roomID, r.userID req.actorUserID, r.correlationID⟩) 200

def finishRoom (roomID : String) (body : Body ActorRequest) : Handler :=
  pass ((r.decodeJSON body).map fun req =>
    .finishRoom ⟨roomID, r.userID req.actorUserID, req.reason, r.correlationID⟩) 200

def activeCounts (roomID : String) : Handler := pass (.ok (.activeCounts roomID)) 200

def joinRoom (roomID : String) (body : Body UserRequest) : Handler :=
  pass ((r.decodeJSON body).map fun req =>
    .joinRoom ⟨roomID, r.userID req.userID, r.correlationID⟩) 200

def leaveRoom (roomID : String) (body : Body UserRequest) : Handler :=
  pass ((r.decodeJSON body).map fun req =>
    .leaveListener
      ⟨roomID, req.sessionID, r.userID req.userID, req.leaveType, r.correlationID⟩) 200

def listenerHeartbeat (roomID sessionID : String) (body : Body UserRequest) : Handler :=
  pass ((r.decodeJSON body).map fun req =>
    .listenerHeartbeat ⟨roomID, sessionID, r.userID req.userID, r.correlationID⟩) 200

def leaveListener (roomID sessionID : String) (body : Body UserRequest) : Handler :=
  pass ((r.decodeJSON body).map fun req =>
    .leaveListener ⟨roomID, sessionID, r.userID req.userID, req.leaveType, r.correlationID⟩) 200

def refreshPlaybackURL (roomID sessionID : String) : Handler :=
  { command := .ok (.listenerStream roomID)
    status := 200
    content := fun
      | .stream d => .reply (.stream { d with sessionID })
      | reply => .reply reply }

def listenerStream (roomID : String) : Handler := pass (.ok (.listenerStream roomID)) 200

def requestToSpeak (roomID : String) (body : Body UserRequest) : Handler :=
  pass ((r.decodeJSON body).map fun req =>
    .requestToSpeak ⟨roomID, r.userID req.userID, r.correlationID⟩) 201

/-- Both decisions on a speaker request. -/
def decideSpeakerRequest (decide : DecideSpeakerRequestCommand → Command)
    (roomID requestID : String) (body : Body ActorRequest) : Handler :=
  pass ((r.decodeJSON body).map fun req =>
    decide ⟨roomID, requestID, r.userID req.actorUserID, req.reason, r.correlationID⟩) 200

def approveSpeakerRequest (roomID requestID : String) (body : Body ActorRequest) : Handler :=
  decideSpeakerRequest r .approveSpeakerRequest roomID requestID body

def declineSpeakerRequest (roomID requestID : String) (body : Body ActorRequest) : Handler :=
  decideSpeakerRequest r .declineSpeakerRequest roomID requestID body

def createSpeakerSession (roomID : String) (body : Body UserRequest) : Handler :=
  pass ((r.decodeJSON body).map fun req =>
    .createSpeakerSession ⟨roomID, r.userID req.userID, r.correlationID⟩) 200

def revokeSpeaker (roomID userID : String) (body : Body ActorRequest) : Handler :=
  accept ((r.decodeJSON body).map fun req =>
    .revokeSpeaker ⟨roomID, r.userID req.actorUserID, userID, req.reason, r.correlationID⟩)

def blockSpeaking (roomID userID : String) (body : Body ActorRequest) : Handler :=
  pass ((r.decodeJSON body).map fun req =>
    .blockSpeaking ⟨roomID, r.userID req.actorUserID, userID, req.reason, r.correlationID⟩) 200

def unblockSpeaking (roomID userID : String) (body : Body ActorRequest) : Handler :=
  pass ((r.decodeJSON body).map fun req =>
    .unblockSpeaking ⟨roomID, r.userID req.actorUserID, userID, req.reason, r.correlationID⟩) 200

def removeParticipant (roomID userID : String) (body : Body ActorRequest) : Handler :=
  accept ((r.decodeJSON body).map fun req =>
    .removeParticipant ⟨roomID, r.userID req.actorUserID, userID, req.reason, r.correlationID⟩)

def startRecording (roomID : String) (body : Body ActorRequest) : Handler :=
  pass ((r.decodeJSON body).map fun req =>
    .startRecording ⟨roomID, r.userID req.actorUserID, r.correlationID⟩) 201

def stopRecording (roomID : String) (body : Body StopRecordingRequest) : Handler :=
  pass ((r.decodeJSON body).map fun req =>
    .stopRecording ⟨roomID, req.recordingID, r.userID req.actorUserID, r.correlationID⟩) 200

def listRecordings (roomID : String) : Handler := pass (.ok (.listRecordings roomID)) 200

def recordingPlaybackURL (roomID recordingID actorUserID : String) : Handler :=
  pass (.ok (.recordingPlaybackURL roomID recordingID (r.userID actorUserID))) 200

def notImplementedEvent : Handler := atOnce (r.writeStatus 202 "accepted")

def generateReport (roomID : String) (body : Body ActorRequest) : Handler :=
  pass ((r.decodeJSON body).map fun req =>
    .generateReport ⟨roomID, r.userID req.actorUserID, r.correlationID⟩) 201

def getReport (roomID : String) : Handler := pass (.ok (.getReport roomID)) 200

def realtimeToken (userID : String) : Handler :=
  pass (.ok (.realtimeConnectionToken (r.userID userID))) 200

def subscriptionToken (body : Body SubscriptionTokenRequest) : Handler :=
  pass ((r.decodeJSON body).map fun req =>
    .realtimeSubscriptionToken (r.userID req.userID) req.channel) 200

def acceptedWebhook : Handler := atOnce (r.writeStatus 202 "accepted")

end Handlers

def Request.handler (r : Request) : Handler :=
  match r.endpoint with
  | .health => health r
  | .ready => ready r
  | .createRoom body => createRoom r body
  | .getRoom roomID => getRoom roomID
  | .startRoom roomID body => startRoom r roomID body
  | .finishRoom roomID body => finishRoom r roomID body
  | .activeCounts roomID => activeCounts roomID
  | .joinRoom roomID body => joinRoom r roomID body
  | .leaveRoom roomID body => leaveRoom r roomID body
  | .listenerHeartbeat roomID sessionID body => listenerHeartbeat r roomID sessionID body
  | .leaveListener roomID sessionID body => leaveListener r roomID sessionID body
  | .refreshPlaybackURL roomID sessionID => refreshPlaybackURL roomID sessionID
  | .listenerStream roomID => listenerStream roomID
  | .requestToSpeak roomID body => requestToSpeak r roomID body
  | .approveSpeakerRequest roomID requestID body => approveSpeakerRequest r roomID requestID body
  | .declineSpeakerRequest roomID requestID body => declineSpeakerRequest r roomID requestID body
  | .createSpeakerSession roomID body => createSpeakerSession r roomID body
  | .revokeSpeaker roomID userID body => revokeSpeaker r roomID userID body
  | .blockSpeaking roomID userID body => blockSpeaking r roomID userID body
  | .unblockSpeaking roomID userID body => unblockSpeaking r roomID userID body
  | .removeParticipant roomID userID body => removeParticipant r roomID userID body
  | .startRecording roomID body => startRecording r roomID body
  | .stopRecording roomID body => stopRecording r roomID body
  | .listRecordings roomID => listRecordings roomID
  | .recordingPlaybackURL roomID recordingID actorUserID =>
      recordingPlaybackURL r roomID recordingID actorUserID
  | .notImplementedEvent => notImplementedEvent r
  | .generateReport roomID body => generateReport r roomID body
  | .getReport roomID => getReport roomID
  | .realtimeToken userID => realtimeToken r userID
  | .subscriptionToken body => subscriptionToken r body
  | .acceptedWebhook => acceptedWebhook r

def Request.respond (r : Request) : Except AppError Reply → Response
  | .ok reply => ⟨r.handler.status, r.correlationID, r.handler.content reply⟩
  | .error e => r.writeError e.message e

/-- `NewRouter` in front of the service. -/
def gateway : Gateway Command Request AppError Reply Response where
  command r := r.handler.command
  respond := Request.respond

end Api

/-- The API over the in-process backends. -/
def Service.api (s : Service) (I : Infra) :
    System effects Api.Request Env Empty Api.Response World :=
  (s.system I).behind Api.gateway

end WaveCast
