import WaveCast.RoomJobs
import WaveCast.ClosedRooms

/-!
# Finished rooms are cleaned up later

The jobs that `FinishRoom` enqueues can be consumed at any later time
(`room_jobs_consumable`): their payloads decode to the room and the actor, their
types have handlers, and the handlers find the room and let the actor report on
it, since no command takes a room out or changes the lists of its moderators.
-/

namespace WaveCast

open Interaction WaveCast.Action Program Service Async

/-! ## A codec -/

/-- A string in quotes, as far as it needs no other escapes than those of `"` and `\`. -/
def quoted (cs : List Char) : List Char :=
  '"' :: cs.flatMap (fun c => if c = '"' ∨ c = '\\' then ['\\', c] else [c]) ++ ['"']

def memberText (member : String × String) : List Char :=
  quoted member.1.toList ++ ':' :: quoted member.2.toList

def membersText : List (String × String) → List Char
  | [] => []
  | [member] => memberText member
  | member :: members => memberText member ++ ',' :: membersText members

/-- The strings of a text; `read` is what was read of the one that is open. -/
def stringsOf : Option (List Char) → List Char → List (List Char)
  | none, '"' :: cs => stringsOf (some []) cs
  | none, _ :: cs => stringsOf none cs
  | some read, '\\' :: c :: cs => stringsOf (some (read ++ [c])) cs
  | some read, '"' :: cs => read :: stringsOf none cs
  | some read, c :: cs => stringsOf (some (read ++ [c])) cs
  | _, [] => []

def pairs : List (List Char) → List (String × String)
  | key :: value :: rest => (.ofList key, .ofList value) :: pairs rest
  | _ => []

def plainJson : Json where
  marshal members := .ok (.ofList ('\x7b' :: membersText members ++ ['\x7d']))
  unmarshal text := .ok (pairs (stringsOf none text.toList))

example : (plainJson.marshal (RoomJobPayload.members ⟨"room_1", "owner"⟩)).toOption =
    some "\x7b\"actorUserId\":\"owner\",\"roomId\":\"room_1\"\x7d" := by decide

theorem stringsOf_quoted (cs rest : List Char) :
    stringsOf none (quoted cs ++ rest) = cs :: stringsOf none rest := by
  have hopen : ∀ read, stringsOf (some read) (cs.flatMap (fun c => if c = '"' ∨ c = '\\' then
      ['\\', c] else [c]) ++ '"' :: rest) = (read ++ cs) :: stringsOf none rest := by
    induction cs with
    | nil => intro read; simp [stringsOf]
    | cons c cs ih =>
      intro read
      rw [List.flatMap_cons]
      split
      · simp [stringsOf, ih]
      · rename_i hc
        obtain ⟨hquote, hescape⟩ := not_or.mp hc
        rw [List.append_assoc, List.singleton_append, stringsOf, ih, List.append_assoc,
          List.singleton_append]
        · exact fun _ _ h _ => hescape h
        · exact hquote
  simpa [quoted, stringsOf] using hopen []

theorem stringsOf_memberText (member : String × String) (rest : List Char) :
    stringsOf none (memberText member ++ rest) =
      member.1.toList :: member.2.toList :: stringsOf none rest := by
  rw [memberText, List.append_assoc, stringsOf_quoted, List.cons_append, stringsOf,
    stringsOf_quoted]
  decide

theorem stringsOf_membersText (members : List (String × String)) (rest : List Char) :
    stringsOf none (membersText members ++ rest) =
      members.flatMap (fun member => [member.1.toList, member.2.toList]) ++
        stringsOf none rest := by
  fun_induction membersText members with
  | case1 => rfl
  | case2 member => simp [stringsOf_memberText]
  | case3 member members hne ih =>
    rw [List.append_assoc, stringsOf_memberText, List.cons_append, stringsOf, ih]
    · simp
    · decide

theorem pairs_strings (members : List (String × String)) :
    pairs (members.flatMap fun member => [member.1.toList, member.2.toList]) = members := by
  induction members with
  | nil => rfl
  | cons member members ih => simp [pairs, ih]

theorem plainJson_roundTrips : plainJson.RoundTrips := by
  intro members _
  refine ⟨_, rfl, ?_⟩
  have hstrings : stringsOf none ('\x7b' :: membersText members ++ ['\x7d']) =
      members.flatMap fun member => [member.1.toList, member.2.toList] := by
    rw [List.cons_append, stringsOf, stringsOf_membersText]
    · simp [stringsOf]
    · decide
  simp only [plainJson, String.toList_ofList, hstrings, pairs_strings]

/-! ## The jobs of a room -/

/-- What `FinishRoom` has enqueued when it returns. -/
def EnqueuesRoomJobs (s : Service) (roomID actorUserID : String) (h : List VoiceExchange) : Prop :=
  (∀ request a, ⟨.enqueue request, a⟩ ∈ h →
    request = closeSessionsJob roomID actorUserID ∨
      request = generateReportJob roomID actorUserID) ∧
  (s.hasJobQueue = true → ∃ a a', ⟨.enqueue (closeSessionsJob roomID actorUserID), a⟩ ∈ h ∧
    ⟨.enqueue (generateReportJob roomID actorUserID), a'⟩ ∈ h)

/-- A job for one of the two requests. -/
def RoomJob (json : Json) (roomID actorUserID : String) (job : Job) : Prop :=
  Carries json job (closeSessionsJob roomID actorUserID) ∨
    Carries json job (generateReportJob roomID actorUserID)

/-- The jobs of the room can be consumed in the state `w`. -/
structure Consumable (r : Registry) (w : World) (roomID actorUserID : String) : Prop where
  marshals : ∃ raw, r.json.marshal (RoomJobPayload.members ⟨roomID, actorUserID⟩) = .ok raw
  enqueued : ∀ (q : Queue) request, request = closeSessionsJob roomID actorUserID ∨
      request = generateReportJob roomID actorUserID →
    Follows (S := queueEffects) (fun _ e => ∀ job, e = .enqueue job →
      RoomJob r.json roomID actorUserID job) (fun _ _ => True) [] (request.enqueue r.json q)
  redelivered : ∀ job, RoomJob r.json roomID actorUserID job → ∀ text t d t',
    RoomJob r.json roomID actorUserID (job.claimed text t d) ∧
      RoomJob r.json roomID actorUserID (job.retried t' text t)
  decodes : ∀ job, RoomJob r.json roomID actorUserID job →
    decodePayload r.json job = .ok ⟨roomID, actorUserID⟩
  registered : ∀ job, RoomJob r.json roomID actorUserID job →
    ∃ handler, r.handlers job.type = some handler
  /-- In any order and any number of times, the handlers only return nil. -/
  handled : ∀ I : Infra, I.Serves → ∀ jobs, (∀ job ∈ jobs, RoomJob r.json roomID actorUserID job) →
    Ensures (S := effects) (World.exec I)
      (Yields False fun _ w' => Consumed r.json roomID actorUserID jobs w w') [] w (r.consume jobs)
  /-- They do return, given two ULIDs for each job. -/
  returns : ∀ I : Infra, ∀ jobs, (∀ job ∈ jobs, RoomJob r.json roomID actorUserID job) →
    w.HasFresh (2 * jobs.length) →
    May (S := effects) (World.exec I) (fun _ _ => True) w (r.consume jobs)

section Finish

variable {s : Service} {I : Infra} {p₀ q p : VoicePool} {pre post : List VoiceJob}
  {c : FinishRoomCommand} {envs : List Env}

/-- `FinishRoom` returns a room only to one of its moderators, with the jobs enqueued. -/
theorem finishRoom_enqueues (s : Service) (c : FinishRoomCommand) (w : World) :
    Ensures (S := effects) (World.exec I) (fun h r _ => ∀ reply, r = .ok reply →
        ∃ room, w.store.rooms.lookup c.roomID = some room ∧ room.Moderates c.actorUserID ∧
          EnqueuesRoomJobs s room.id c.actorUserID h) [] w (s.program (.finishRoom c)) := by
  simp only [Service.program, finishRoom, map_eq, bind_eq, bind_assoc]
  refine ensures_readAt (c := .getRoom c.roomID) trivial (fun env room hx => ?_) fun e => by simp
  have hfollows : ∀ p : Action Reply, Follows (S := effects) (fun _ _ => True) (fun h r =>
      ∀ reply, r = .ok reply → room.Moderates c.actorUserID ∧
        EnqueuesRoomJobs s room.id c.actorUserID h) [⟨.store (.getRoom c.roomID), .ok room⟩] p →
      Ensures (S := effects) (World.exec I) (fun h r _ => ∀ reply, r = .ok reply →
        ∃ room, w.store.rooms.lookup c.roomID = some room ∧ room.Moderates c.actorUserID ∧
          EnqueuesRoomJobs s room.id c.actorUserID h)
        [⟨.store (.getRoom c.roomID), .ok room⟩] w p :=
    fun p hp => (hp.ensures w).mono fun h r _ hr reply hok =>
      ⟨room, World.exec_getRoom hx, hr reply hok⟩
  refine hfollows _ ?_
  simp only [publish, pure_eq, bind_eq, bind_assoc, follows_store, follows_require, follows_now,
    follows_fresh, follows_publishCall, true_and, Room.canModerate_iff]
  cases hq : s.hasJobQueue with
  | true =>
    simp only [enqueueBestEffort, hq, ↓reduceIte, bind_eq, pure_eq, bind_assoc, follows_ask,
      true_and, ret_bind, follows_ret]
    simp +contextual [EnqueuesRoomJobs, closeSessionsJob, generateReportJob, finishedRoom]
    rintro - - a a' request b (⟨h, -⟩ | ⟨h, -⟩)
    · exact .inr h
    · exact .inl h
  | false =>
    simp only [enqueueBestEffort, hq, Bool.false_eq_true, ↓reduceIte, pure_eq, ret_bind,
      follows_ret]
    simp +contextual [EnqueuesRoomJobs, hq]

/-- A room keeps its moderators in the rest of a run. -/
theorem hosts_later {room : Room} {roomID actorUserID : String}
    (hp₀ : (s.system I).serial pre = some p₀) (hp : (s.system I).performAll post p₀ = some p)
    (hl : p₀.state.store.rooms.lookup roomID = some room) (hm : room.Moderates actorUserID) :
    p.state.Hosts roomID actorUserID := by
  obtain ⟨ms, n, hms, hn⟩ := System.performAll_take hp₀ hp
  obtain ⟨room', hl', hident⟩ := (run_keepsIdentity hms hn).rooms roomID room hl
  refine ⟨(run_keyed hms).listenerSessions.ident_eq, room', hl',
    (run_keyed hms).rooms.ident_eq _ _ hl', ?_⟩
  simp only [Room.identity, Prod.mk.injEq] at hident
  obtain ⟨-, howner, hadmins, hmoderators, -, -⟩ := hident
  simpa only [Room.Moderates, howner, hadmins, hmoderators] using hm

end Finish

/-- **The jobs of a finished room can be consumed** in every later state of a
sequential run, whatever has failed in the meantime. -/
theorem room_jobs_consumable (s : Service) (I : Infra) (json : Json) (hjson : json.RoundTrips)
    (timeout : Duration) (pre post : List VoiceJob) (c : FinishRoomCommand) (envs : List Env)
    (p₀ q p : VoicePool) (hp₀ : (s.system I).serial pre = some p₀)
    (hq : (s.system I).perform (.finishRoom c, envs) p₀ = some q)
    (hok : ∃ reply, q.threads = p₀.threads ++ [⟨.finishRoom c, .ret reply⟩])
    (hp : (s.system I).performAll post q = some p) :
    (∀ o : System.Outcome (s.system I) p₀ (.finishRoom c, envs) q,
      EnqueuesRoomJobs s c.roomID c.actorUserID o.history) ∧
    Consumable ⟨s, timeout, json⟩ p.state c.roomID c.actorUserID := by
  have hfinish : ∀ o : System.Outcome (s.system I) p₀ (.finishRoom c, envs) q,
      ∃ room, p₀.state.store.rooms.lookup c.roomID = some room ∧
        room.Moderates c.actorUserID ∧ EnqueuesRoomJobs s c.roomID c.actorUserID o.history := by
    intro o
    obtain ⟨reply, hreply⟩ := hok
    have hthreads := o.threads_eq
    rw [hreply] at hthreads
    cases hr : o.result with
    | error e => simp [hr] at hthreads
    | ok reply' =>
      obtain ⟨room, hl, hm, hjobs⟩ :=
        System.perform_ensures hq o (finishRoom_enqueues s c p₀.state) reply' hr
      obtain ⟨ms, hms⟩ := System.serial_isRun hp₀
      rw [(run_keyed hms).rooms.ident_eq _ _ hl] at hjobs
      exact ⟨room, hl, hm, hjobs⟩
  refine ⟨fun o => (hfinish o).choose_spec.2.2, ?_⟩
  obtain ⟨o⟩ := System.exists_outcome hq
  obtain ⟨room, hl, hm, -⟩ := hfinish o
  have hall : (s.system I).performAll ((.finishRoom c, envs) :: post) p₀ = some p :=
    Option.bind_eq_some_iff.mpr ⟨q, hq, hp⟩
  have hhosts := hosts_later hp₀ hall hl hm
  have hcarried : ∀ job, RoomJob json c.roomID c.actorUserID job →
      decodePayload json job = .ok ⟨c.roomID, c.actorUserID⟩ := by
    rintro job (hc | hc) <;> exact decodePayload_eq hjson hc
  constructor
  · exact (hjson _ (RoomJobPayload.members_sorted _)).imp fun raw h => h.1
  · rintro queue request (rfl | rfl)
    · exact (enqueue_carries json queue _).mono (fun _ _ h job he => .inl (h job he)) fun _ _ h => h
    · exact (enqueue_carries json queue _).mono (fun _ _ h job he => .inr (h job he)) fun _ _ h => h
  · rintro job (hc | hc) text t d t'
    · exact ⟨.inl (hc.claimed text t d), .inl (hc.retried t' text t)⟩
    · exact ⟨.inr (hc.claimed text t d), .inr (hc.retried t' text t)⟩
  · exact hcarried
  · exact fun job hjob => (exists_handler _ hjob).imp fun handler h => h.1
  · exact fun I' hI' jobs hjobs => consume_handles hI' hjson hjobs hhosts
  · exact fun I' jobs hjobs hw => consume_may hjobs hw

theorem room_jobs_consumable_guest :
    ∃ p, (sampleService.system (sampleInfra fun _ => false)).serial
        (openRoom ++ [guestJoins, ownerFinishes, guestLeaves]) = some p ∧
      p.state.queue = [closeSessionsJob sampleRoom "owner", generateReportJob sampleRoom "owner"] ∧
      Consumable ⟨sampleService, 60 * second, plainJson⟩ p.state sampleRoom "owner" := by
  have hrun : ((sampleService.system (sampleInfra fun _ => false)).serial
      (openRoom ++ [guestJoins])).any (fun p₀ =>
        ((sampleService.system (sampleInfra fun _ => false)).perform ownerFinishes p₀).any fun q =>
          !lastFailed q && ((sampleService.system (sampleInfra fun _ => false)).performAll
            [guestLeaves] q).any fun p => p.state.queue =
              [closeSessionsJob sampleRoom "owner", generateReportJob sampleRoom "owner"]) =
      true := by
    decide +kernel
  obtain ⟨p₀, hp₀, hfacts⟩ := (Option.any_eq_true _ _).mp hrun
  obtain ⟨q, hq, hfacts⟩ := (Option.any_eq_true _ _).mp hfacts
  obtain ⟨hok, hfacts⟩ := Bool.and_eq_true_iff.mp hfacts
  obtain ⟨p, hp, hqueue⟩ := (Option.any_eq_true _ _).mp hfacts
  refine ⟨p, ?_, of_decide_eq_true hqueue, ?_⟩
  · have hserial := System.serial_append (System.serial_concat.mpr ⟨p₀, hp₀, hq⟩) hp
    simpa using hserial
  · exact (room_jobs_consumable _ _ plainJson plainJson_roundTrips _ _ _ _ _ p₀ q p hp₀ hq
      (threads_of_not_lastFailed hq (by simpa using hok)) hp).2

end WaveCast
