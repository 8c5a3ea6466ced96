import Mathlib.Tactic.IntervalCases
import WaveCast.Authority
import WaveCast.Sequential

/-!
# Moderation of speakers

Two laws about sequential runs, and when they hold:

* a speaking block is enforced if no moderator blocks a user whose request is
  already approved or approves a user who is already blocked
  (`blocks_enforced`);
* the latest decision determines who is a speaker if no decision against a user
  succeeds while an approved request of that user is stored, and none is stored
  by an approval whose event is then lost (`latest_decision_rules`).

Only `RequestToSpeak` looks at the blocks, and `RevokeSpeaker` only publishes
an event, so neither law holds of every run.
-/

namespace WaveCast

open Interaction

/-- An approved request of the user for the room is stored. -/
def HoldsApproval (w : World) (roomID userID : String) : Prop :=
  ∃ k request, w.store.speakerRequests.lookup k = some request ∧ request.roomID = roomID ∧
    request.userID = userID ∧ request.status = .approved

/-- An active speaking block of the user in the room is stored. -/
def Blocked (w : World) (roomID userID : String) : Prop :=
  ∃ k block, w.store.speakingBlocks.lookup k = some block ∧ block.roomID = roomID ∧
    block.userID = userID ∧ block.unblockedAt = none

/-- `resolveRole`, run on the store, can answer `role`. -/
def ResolvesTo (I : Infra) (w : World) (room : Room) (userID : String) (role : RoomRole) : Prop :=
  ∃ envs w', Program.eval (World.exec I) envs (Service.resolveRole room userID) w =
    some (.ok role, w')

variable {s : Service} {I : Infra} {jobs : List VoiceJob} {p : VoicePool}

/-- The store finds an approved request iff one is stored. -/
theorem exists_findApproved_iff {w : World} {roomID userID : String} :
    (∃ env request w', World.exec I env (.store (.findApprovedSpeakerRequest roomID userID)) w =
      some (.ok request, w')) ↔ HoldsApproval w roomID userID := by
  constructor
  · rintro ⟨env, request, w', h⟩
    obtain ⟨⟨k, hk⟩, hr, hu, hst⟩ := World.exec_findApproved h
    exact ⟨k, request, hk, hr, hu, hst⟩
  · rintro ⟨k, request, hk, hr, hu, hst⟩
    -- a loop over the keys in some order comes to the request
    let order := w.store.speakerRequests.keys.toList
    have hrange : w.store.speakerRequests.range order =
        some (order.filterMap w.store.speakerRequests.lookup) := by
      simp [Table.range, order, Finset.nodup_toList]
    have hfound : (order.filterMap w.store.speakerRequests.lookup).find?
        (fun r => r.roomID = roomID && r.userID = userID && r.status = .approved) ≠ none := by
      rw [ne_eq, List.find?_eq_none]
      intro hno
      exact hno request ((Table.mem_range hrange request).mpr ⟨k, hk⟩) (by simp [hr, hu, hst])
    obtain ⟨found, hf⟩ := Option.ne_none_iff_exists'.mp hfound
    refine ⟨⟨0, sampleUlid 0, order, [], false⟩, found, w, ?_⟩
    simp [World.exec, World.perform, Store.step, hrange, Store.findSpeakerRequest, hf, Store.found]

/-- Nobody but the moderators of a room is a speaker without an approved request. -/
theorem resolvesTo_speaker_iff {w : World} {room : Room} {userID : String}
    (hm : ¬ room.Moderates userID) :
    ResolvesTo I w room userID .speaker ↔ HoldsApproval w room.id userID := by
  rw [← exists_findApproved_iff (I := I)]
  have hrole : ¬ room.resolveRole userID ≠ .listener :=
    not_not.mpr ((room.resolveRole_eq_listener_iff userID).mpr hm)
  simp only [ResolvesTo, Service.resolveRole, if_neg hrole, Program.bind_eq]
  constructor
  · rintro ⟨envs, w', h⟩
    cases envs with
    | nil => cases h
    | cons env envs =>
      obtain ⟨⟨a, w₁⟩, he, hr⟩ := Option.bind_eq_some_iff.mp h
      cases a with
      | ok request => exact ⟨env, request, w₁, he⟩
      | error e =>
        simp only [Program.ret_bind] at hr
        split at hr <;> cases envs <;> simp_all [Program.eval]
  · rintro ⟨env, request, w', h⟩
    exact ⟨[env], w', by simp [Action.ask, Program.perform, Program.eval, h]⟩

/-! ## What one command does -/

section Step

variable {p q : VoicePool} {cmd : Command} {envs : List Env}
  {o : System.Outcome (s.system I) p (cmd, envs) q}

/-- The room of a stored approval is stored. -/
theorem HoldsApproval.room_stored (r : CommandRun s I p q (cmd, envs) o) {roomID userID : String}
    (h : HoldsApproval p.state roomID userID) : p.state.store.rooms.lookup roomID ≠ none := by
  obtain ⟨k, request, hk, rfl, -, hst⟩ := h
  obtain ⟨ms, hms⟩ := r.before
  rw [lookup_speakerRequests r.replays_before] at hk
  obtain ⟨created, ⟨e, he, c, -, hx, hid, -⟩, -⟩ := (request_origin hms (.now hk)).2 hst
  rw [lookup_rooms r.replays_before]
  intro hnone
  exact lastWrite_eq_none.mp hnone e he created (savedRoom_eq_some.mpr ⟨hx, hid.symm⟩)

/-- The room of an approval from before the command was there before it, with
the same moderators, and unfinished if it is still. -/
theorem approval_room (r : CommandRun s I p q (cmd, envs) o) {roomID userID : String} {room : Room}
    (happroval : HoldsApproval p.state roomID userID)
    (hq : q.state.store.rooms.lookup roomID = some room) :
    ∃ room₀, p.state.store.rooms.lookup roomID = some room₀ ∧
      (∀ u, room.Moderates u ↔ room₀.Moderates u) ∧
      (room.status ≠ .finished → room₀.status ≠ .finished) := by
  rcases r.room_cases hq with ⟨hnone, -⟩ | ⟨room₀, hp, hch, -⟩ | hp
  · exact absurd hnone (happroval.room_stored r)
  · exact ⟨room₀, hp, hch.moderates, fun hne hf => hne (hch.status_finished hf)⟩
  · exact ⟨room, hp, fun _ => Iff.rfl, id⟩

/-- A command that decides a request leaves the rooms as they are. -/
theorem room_of_decision (r : CommandRun s I p q (cmd, envs) o) {c : DecideSpeakerRequestCommand}
    {status : SpeakerRequestStatus} (hd : decision cmd = some (c, status)) {k : String}
    {room : Room} (hq : q.state.store.rooms.lookup k = some room) :
    p.state.store.rooms.lookup k = some room := by
  rcases r.room_cases hq with ⟨-, c', rfl, -⟩ | ⟨room₀, -, hch, -⟩ | hp
  · cases hd
  · cases cmd with
    | approveSpeakerRequest _ => cases hch
    | declineSpeakerRequest _ => cases hch
    | _ => cases hd
  · exact hp

/-- A stored approval is older than the command, or the command approves. -/
theorem approval_cases (r : CommandRun s I p q (cmd, envs) o) {roomID userID : String}
    (h : HoldsApproval q.state roomID userID) :
    (∃ c room request₀ request, cmd = .approveSpeakerRequest c ∧ c.roomID = roomID ∧
      ⟨.store (.saveSpeakerRequest request), .ok ()⟩ ∈ o.history ∧
      request.roomID = roomID ∧ request.userID = userID ∧
      p.state.store.rooms.lookup roomID = some room ∧ room.Moderates c.actorUserID ∧
      p.state.store.speakerRequests.lookup c.requestID = some request₀ ∧
      request₀.roomID = roomID ∧ request₀.userID = userID ∧ request₀.status = .pending) ∨
    HoldsApproval p.state roomID userID := by
  obtain ⟨k, request, hk, hr, hu, hst⟩ := h
  rcases r.request_cases hk with hsaved | hp
  · rcases r.request_saved hsaved with ⟨-, hpending⟩ |
      ⟨c, status, t, room, request₀, hd, hroom, hm, hreq, hid, hpend, rfl⟩
    · rw [hst] at hpending
      cases hpending
    · have hroomID : room.id = c.roomID := r.room_id hroom
      have hc : c.roomID = roomID := by rw [← hroomID, ← hid]; exact hr
      refine .inl ⟨c, room, request₀, _, decision_approved (hst ▸ hd), hc, hsaved, hr, hu, ?_, hm,
        hreq, hr, hu, hpend⟩
      rw [← hc]
      exact hroom
  · exact .inr ⟨k, request, hp, hr, hu, hst⟩

end Step

/-! ## Blocks -/

/-- `e` asks for a token for the user of the room. -/
def AsksToken (e : VoiceEntry) (roomID userID : String) : Prop :=
  (∃ input, e.exchange.call = .issueSpeakerToken input) ∧
  ((∃ c, e.cmd = .joinRoom c ∧ c.roomID = roomID ∧ c.userID = userID) ∨
    ∃ c, e.cmd = .createSpeakerSession c ∧ c.roomID = roomID ∧ c.userID = userID)

/-- A token is only asked for when no block of its user is active, unless the
user moderates the room. -/
def BlockEnforced (s : Service) (I : Infra) (older : List VoiceEntry) (e : VoiceEntry) : Prop :=
  ∀ roomID userID room w, AsksToken e roomID userID → (s.system I).Replays older w →
    w.store.rooms.lookup roomID = some room → ¬ room.Moderates userID →
    ¬ Blocked w roomID userID

/-- No user who may already speak is blocked, and no blocked user approved, in
a room that is not finished. -/
def BlocksComeFirst (p : VoicePool) (job : VoiceJob) : Prop :=
  match job.1 with
  | .blockSpeaking c => ∀ room, p.state.store.rooms.lookup c.roomID = some room →
      room.status ≠ .finished → room.Moderates c.actorUserID → ¬ room.Moderates c.targetUserID →
      ¬ HoldsApproval p.state c.roomID c.targetUserID
  | .approveSpeakerRequest c => ∀ room request,
      p.state.store.rooms.lookup c.roomID = some room → room.status ≠ .finished →
      room.Moderates c.actorUserID →
      p.state.store.speakerRequests.lookup c.requestID = some request →
      request.roomID = c.roomID → request.status = .pending → ¬ room.Moderates request.userID →
      ¬ Blocked p.state c.roomID request.userID
  | _ => True

/-- Nobody is both blocked and approved, the moderators and finished rooms apart. -/
def NoBlockedSpeaker (w : World) : Prop :=
  ∀ roomID userID room, w.store.rooms.lookup roomID = some room → room.status ≠ .finished →
    ¬ room.Moderates userID → HoldsApproval w roomID userID → ¬ Blocked w roomID userID

theorem noBlockedSpeaker_step {p q : VoicePool} {cmd : Command} {envs : List Env}
    {o : System.Outcome (s.system I) p (cmd, envs) q} (r : CommandRun s I p q (cmd, envs) o)
    (hok : BlocksComeFirst p (cmd, envs)) (hp : NoBlockedSpeaker p.state) :
    NoBlockedSpeaker q.state := by
  rintro roomID userID room hroom hopen hm happroval ⟨k, block, hk, hbr, hbu, hactive⟩
  rcases approval_cases r happroval with
    ⟨c, room₀, request₀, request, rfl, rfl, -, -, -, hroom₀, hactor, hreq, hreqr, hrequ, hpend⟩ |
    hbefore
  · -- the command approves: the block is older
    have hsame := room_of_decision r rfl hroom
    rw [hroom₀] at hsame
    cases hsame
    rcases r.block_cases hk hactive with ⟨c', _, hc, -⟩ | hkept
    · cases hc
    · exact hok room request₀ hroom₀ hopen hactor hreq hreqr hpend (hrequ.symm ▸ hm)
        ⟨k, block, hkept, hbr, hbu.trans hrequ.symm, hactive⟩
  · obtain ⟨room₀, hroom₀, hmod, hopen₀⟩ := approval_room r hbefore hroom
    have hm₀ : ¬ room₀.Moderates userID := mt (hmod userID).mpr hm
    rcases r.block_cases hk hactive with ⟨c, room', rfl, hroom', hactor, hcr, hcu⟩ | hkept
    · -- the command blocks: the approval is older
      obtain rfl := hcr.symm.trans hbr
      obtain rfl := hcu.symm.trans hbu
      rw [hroom₀] at hroom'
      cases hroom'
      exact hok room₀ hroom₀ (hopen₀ hopen) hactor hm₀ hbefore
    · exact hp roomID userID room₀ hroom₀ (hopen₀ hopen) hm₀ hbefore
        ⟨k, block, hkept, hbr, hbu, hactive⟩

/-- The approved request a command found before it saved any request is stored
before the command. -/
theorem approval_read {p q : VoicePool} {cmd : Command} {envs : List Env}
    {o : System.Outcome (s.system I) p (cmd, envs) q} (r : CommandRun s I p q (cmd, envs) o)
    {newer older : List VoiceEntry} (ht : o.entries = newer ++ older) {roomID userID : String}
    {request : SpeakerRequest}
    (hr : ⟨.store (.findApprovedSpeakerRequest roomID userID), .ok request⟩ ∈
      older.map (·.exchange))
    (hno : ∀ e ∈ older, requestSaves e = none) : HoldsApproval p.state roomID userID := by
  obtain ⟨⟨i, c, env, x⟩, he, rfl⟩ := List.mem_map.mp hr
  obtain ⟨mid, rest, rfl⟩ := List.append_of_mem he
  have hrep := r.replays_after
  rw [o.trace_eq, ht, List.append_assoc, List.append_assoc] at hrep
  obtain ⟨_, hrep⟩ := hrep.of_append
  obtain ⟨w₁, w₀, h₀, hx⟩ := hrep.of_append
  obtain ⟨⟨k, hk⟩, hroom, huser, hst⟩ := World.exec_findApproved hx
  rw [System.view_until (fun t w hw k => lookup_speakerRequests hw k) r.replays_before h₀
    fun e he => hno e (by simp [he])] at hk
  exact ⟨k, request, hk, hroom, huser, hst⟩

/-- A command that asks for a token saves no room, no request and no block. -/
theorem AsksToken.quiet {e : VoiceEntry} {roomID userID : String} (h : AsksToken e roomID userID) :
    (∀ h room, ¬ SavesRoom s h room e.cmd) ∧ (∀ h request, ¬ SavesSpeakerRequest h request e.cmd) ∧
      ∀ h block, ¬ SavesSpeakingBlock h block e.cmd := by
  rcases h.2 with ⟨c, hc, -⟩ | ⟨c, hc, -⟩ <;> rw [hc] <;>
    exact ⟨fun _ _ => id, fun _ _ => id, fun _ _ => id⟩

/-- A token is only asked for in a live room, for one of its moderators or for
a user with an approval from before. -/
theorem approval_of_token {p q : VoicePool} {cmd : Command} {envs : List Env}
    {o : System.Outcome (s.system I) p (cmd, envs) q} (r : CommandRun s I p q (cmd, envs) o)
    {e : VoiceEntry} (he : e ∈ o.entries) {roomID userID : String}
    (htoken : AsksToken e roomID userID) :
    ∃ room, p.state.store.rooms.lookup roomID = some room ∧ room.status = .live ∧
      (room.Moderates userID ∨ HoldsApproval p.state roomID userID) := by
  obtain ⟨newer, older, ht⟩ := List.append_of_mem he
  have ht' : o.entries = (newer ++ [e]) ++ older := by simp [ht]
  have hown : e.cmd = cmd := (o.own e he).2.1
  obtain ⟨hrooms, hrequests, -⟩ := htoken.quiet (s := s)
  obtain ⟨⟨input, hcall⟩, hcmd⟩ := htoken
  rw [hown] at hcmd hrooms hrequests
  have hissue := r.asks_at ht
  rw [hcall] at hissue
  have hgrounds : TokenGrounds (older.map (·.exchange)) roomID userID input := by
    rcases hcmd with ⟨c, rfl, rfl, rfl⟩ | ⟨c, rfl, rfl, rfl⟩ <;> exact hissue
  obtain ⟨room, hread, hlive, -, -, hu⟩ := hgrounds
  have hroom := r.room_read ht' roomID room hread fun x hx => by
    obtain ⟨f, hf, rfl⟩ := List.mem_map.mp hx
    exact r.no_room_saves hrooms f (by simp [ht, hf])
  refine ⟨room, hroom, hlive, hu.imp id ?_⟩
  rintro ⟨request, hfound⟩
  have happroval := approval_read r ht' hfound fun f hf =>
    r.no_request_saves hrequests f (by simp [ht, hf])
  rwa [r.room_id hroom] at happroval

theorem blockEnforced_step {p q : VoicePool} {cmd : Command} {envs : List Env}
    {o : System.Outcome (s.system I) p (cmd, envs) q} (r : CommandRun s I p q (cmd, envs) o)
    (hp : NoBlockedSpeaker p.state) (newer : List VoiceEntry) (e : VoiceEntry)
    (older : List VoiceEntry) (ht : o.entries = newer ++ e :: older) :
    BlockEnforced s I (older ++ p.trace) e := by
  rintro roomID userID room w htoken hw hroom hm ⟨k, block, hk, hbr, hbu, hactive⟩
  obtain ⟨hrooms, -, hblocks⟩ := htoken.quiet (s := s)
  rw [(o.own e (by simp [ht])).2.1] at hrooms hblocks
  rw [System.view_until (fun t w hw k => lookup_rooms hw k) r.replays_before hw
    fun f hf => r.no_room_saves hrooms f (by simp [ht, hf])] at hroom
  rw [System.view_until (fun t w hw k => lookup_speakingBlocks hw k) r.replays_before hw
    fun f hf => r.no_block_saves hblocks f (by simp [ht, hf])] at hk
  obtain ⟨room', hroom', hlive, hu⟩ := approval_of_token r (by simp [ht]) htoken
  rw [hroom] at hroom'
  cases hroom'
  rcases hu with hmod | happroval
  · exact hm hmod
  · exact hp roomID userID room hroom (by simp [hlive]) hm happroval
      ⟨k, block, hk, hbr, hbu, hactive⟩

/-- **A speaking block is enforced** in every sequential run in which blocks
come before approvals: no token is asked for while a block of its user is
active. -/
theorem blocks_enforced (s : Service) (I : Infra) (jobs : List VoiceJob) (p : VoicePool)
    (hok : (s.system I).SerialOk BlocksComeFirst jobs) (h : (s.system I).serial jobs = some p) :
    Always (BlockEnforced s I) p.trace := by
  have hinv : NoBlockedSpeaker p.state ∧ Always (BlockEnforced s I) p.trace := by
    refine System.serial_induction (I := fun p => NoBlockedSpeaker p.state ∧
      Always (BlockEnforced s I) p.trace) ⟨?_, trivial⟩ ?_ hok h
    · intro roomID userID room hroom
      cases hroom
    · rintro pre p ⟨cmd, envs⟩ q hp ⟨hinv, hall⟩ hjob hq
      obtain ⟨o, r⟩ := exists_commandRun hp hq
      refine ⟨noBlockedSpeaker_step r hjob hinv, ?_⟩
      rw [o.trace_eq, always_append]
      exact ⟨blockEnforced_step r hinv, hall⟩
  exact hinv.2

theorem exec_issueSpeakerToken {env : Env} {input : SpeakerTokenInput}
    {a : Except AppError SpeakerMediaDescriptor} {w w' : World}
    (h : World.exec I env (.issueSpeakerToken input) w = some (a, w')) : w' = w := by
  rcases World.exec_cases h with ⟨-, -, -, hw⟩ | ⟨-, h⟩
  · exact hw
  · cases h
    rfl

def sampleBlock : String := newID prefixSpeakingBlock (sampleUlid 8)

/-- The guest is approved, then blocked, and asks for a speaker session. -/
def blockedSpeaker : List VoiceJob :=
  openRoom ++ promotion.take 2 ++
  [(.blockSpeaking ⟨sampleRoom, "moderator", "guest", "spam", ""⟩,
      plain 2 ++ drawing 8 ++ plain 2 ++ publishing 9),
   (.createSpeakerSession ⟨sampleRoom, "guest", ""⟩,
      plain 1 ++ visiting [sampleRequest] ++ drawing 7 ++ plain 4)]

theorem blocks_enforced_fails :
    ¬ ∀ (s : Service) (I : Infra) (jobs : List VoiceJob) (p : VoicePool),
      (s.system I).serial jobs = some p → Always (BlockEnforced s I) p.trace := by
  intro hclaim
  have hrun : ((sampleService.system (sampleInfra fun _ => false)).serial blockedSpeaker).any
      (fun p => p.trace.head?.any (fun e =>
          e.exchange.call = .issueSpeakerToken ⟨"lk_" ++ sampleRoom, "guest", .speaker⟩ &&
          e.cmd = .createSpeakerSession ⟨sampleRoom, "guest", ""⟩) &&
        (p.state.store.rooms.lookup sampleRoom).any (·.resolveRole "guest" = .listener) &&
        (p.state.store.speakingBlocks.lookup sampleBlock).any (fun b =>
          b.roomID = sampleRoom && b.userID = "guest" && b.unblockedAt = none)) = true := by
    decide +kernel
  obtain ⟨p, hp, hfacts⟩ := (Option.any_eq_true _ _).mp hrun
  simp only [Bool.and_eq_true, Option.any_eq_true, decide_eq_true_eq] at hfacts
  obtain ⟨⟨⟨⟨i, cmd, env, x⟩, hhead, hcall, rfl⟩, room, hroom, hm⟩, block, hblock, ⟨hbr, hbu⟩,
    hactive⟩ := hfacts
  obtain ⟨older, ht⟩ := List.head?_eq_some_iff.mp hhead
  obtain ⟨ms, hms⟩ := System.serial_isRun hp
  have hrep := System.run_replays hms
  have hall := hclaim _ _ _ p hp
  rw [ht] at hrep hall
  obtain ⟨w, hw, he⟩ := hrep
  obtain ⟨c, a⟩ := x
  obtain rfl : c = _ := hcall
  rw [exec_issueSpeakerToken he] at hroom hblock
  exact hall.1 sampleRoom "guest" room w ⟨⟨_, rfl⟩, .inr ⟨_, rfl, rfl, rfl⟩⟩ hw hroom
    ((room.resolveRole_eq_listener_iff "guest").mp hm)
    ⟨sampleBlock, block, hblock, hbr, hbu, hactive⟩

/-- The guest is approved, somebody else is blocked, and the guest asks for a
speaker session. -/
def blockedHeckler : List VoiceJob :=
  openRoom ++ promotion.take 2 ++
  [(.blockSpeaking ⟨sampleRoom, "moderator", "heckler", "spam", ""⟩,
      plain 2 ++ drawing 8 ++ plain 2 ++ publishing 9)] ++
  promotion.drop 2

theorem blockedHeckler_ok : (sampleService.system (sampleInfra fun _ => false)).SerialOk
    BlocksComeFirst blockedHeckler := by
  rintro pre ⟨cmd, envs⟩ post q hsplit hq
  have hpre : pre = blockedHeckler.take pre.length := by rw [hsplit, List.take_left]
  have hjob : blockedHeckler[pre.length]? = some (cmd, envs) := by simp [hsplit]
  have hlt : pre.length < 6 := (List.getElem?_eq_some_iff.mp hjob).1
  rw [hpre] at hq
  generalize pre.length = i at hjob hlt hq
  cases cmd with
  | blockSpeaking c =>
    -- the only requests are the guest's
    interval_cases i <;> cases hjob
    have hguest : ((sampleService.system (sampleInfra fun _ => false)).serial
        (blockedHeckler.take 4)).all (fun q => decide (∀ k ∈ q.state.store.speakerRequests.keys,
          ((q.state.store.speakerRequests.lookup k).all (·.userID = "guest")) = true)) = true := by
      decide +kernel
    rw [hq] at hguest
    rintro room - - - - ⟨k, request, hk, -, huser, -⟩
    have hreq := of_decide_eq_true hguest k
      (Finmap.mem_keys.mpr (Finmap.mem_of_lookup_eq_some hk))
    rw [hk, Option.all_some] at hreq
    exact absurd (huser.symm.trans (of_decide_eq_true hreq)) (by decide)
  | approveSpeakerRequest c =>
    -- nobody is blocked yet
    interval_cases i <;> cases hjob
    have hempty : ((sampleService.system (sampleInfra fun _ => false)).serial
        (blockedHeckler.take 3)).all (·.state.store.speakingBlocks.keys = ∅) = true := by
      decide +kernel
    rw [hq] at hempty
    have hkeys : q.state.store.speakingBlocks.keys = ∅ := of_decide_eq_true hempty
    rintro room request - - - - - - - ⟨k, block, hk, -⟩
    have hmem := Finmap.mem_keys.mpr (Finmap.mem_of_lookup_eq_some hk)
    rw [hkeys] at hmem
    cases hmem
  | _ => trivial

theorem blocks_enforced_heckler :
    ∃ p, (sampleService.system (sampleInfra fun _ => false)).serial blockedHeckler = some p ∧
      (p.state.store.speakingBlocks.lookup sampleBlock).any (·.userID = "heckler") = true ∧
      (∃ e ∈ p.trace, ∃ input, e.exchange.call = .issueSpeakerToken input) ∧
      Always (BlockEnforced sampleService (sampleInfra fun _ => false)) p.trace := by
  have hrun : ((sampleService.system (sampleInfra fun _ => false)).serial blockedHeckler).any
      (fun p => (p.state.store.speakingBlocks.lookup sampleBlock).any (·.userID = "heckler") &&
        p.trace.any fun e => e.exchange.call =
          .issueSpeakerToken ⟨"lk_" ++ sampleRoom, "guest", .speaker⟩) = true := by
    decide +kernel
  obtain ⟨p, hp, hfacts⟩ := (Option.any_eq_true _ _).mp hrun
  obtain ⟨hblock, htoken⟩ := Bool.and_eq_true_iff.mp hfacts
  obtain ⟨e, he, hcall⟩ := List.any_eq_true.mp htoken
  exact ⟨p, hp, hblock, ⟨e, he, _, of_decide_eq_true hcall⟩,
    blocks_enforced _ _ _ p blockedHeckler_ok hp⟩

/-! ## The latest decision -/

/-- The decisions on a user's place as a speaker. -/
inductive Decision where
  | approved
  | declined
  | revoked
  deriving DecidableEq

/-- The decision on the user in the room that a command took by succeeding. -/
def decisionOn (roomID userID : String) (t : Thread effects Command AppError Reply) :
    Option Decision :=
  match t.cmd, t.rest with
  | .approveSpeakerRequest _, .ret (.speakerRequest r) =>
      if r.roomID = roomID ∧ r.userID = userID then some .approved else none
  | .declineSpeakerRequest _, .ret (.speakerRequest r) =>
      if r.roomID = roomID ∧ r.userID = userID then some .declined else none
  | .revokeSpeaker c, .ret _ =>
      if c.roomID = roomID ∧ c.targetUserID = userID then some .revoked else none
  | _, _ => none

def latestDecision (p : VoicePool) (roomID userID : String) : Option Decision :=
  (p.threads.filterMap (decisionOn roomID userID)).getLast?

/-- Whoever resolves to a speaker, or is asked a token for by the next command,
without moderating the room has an approval as the latest decision. -/
def LatestDecisionRules (s : Service) (I : Infra) (p : VoicePool) : Prop :=
  ∀ roomID userID room, p.state.store.rooms.lookup roomID = some room →
    ¬ room.Moderates userID →
    (ResolvesTo I p.state room userID .speaker →
      latestDecision p roomID userID = some .approved) ∧
    ∀ job q new e, (s.system I).perform job p = some q → q.trace = new ++ p.trace → e ∈ new →
      AsksToken e roomID userID → latestDecision p roomID userID = some .approved

/-- No decision that goes through against a user who holds an approval, and no
first approval of a user that is saved but not published. -/
def NoDecisionAgainstApproval (p : VoicePool) (job : VoiceJob) : Prop :=
  match job.1 with
  | .revokeSpeaker c => (∀ env ∈ job.2, env.fails = false) →
      ∀ room, p.state.store.rooms.lookup c.roomID = some room →
      room.Moderates c.actorUserID → ¬ room.Moderates c.targetUserID →
      ¬ HoldsApproval p.state c.roomID c.targetUserID
  | .declineSpeakerRequest c => (∀ env ∈ job.2, env.fails = false) → ∀ room request,
      p.state.store.rooms.lookup c.roomID = some room → room.Moderates c.actorUserID →
      p.state.store.speakerRequests.lookup c.requestID = some request →
      request.roomID = c.roomID → request.status = .pending → ¬ room.Moderates request.userID →
      ¬ HoldsApproval p.state c.roomID request.userID
  | .approveSpeakerRequest c => ∀ room request,
      p.state.store.rooms.lookup c.roomID = some room → room.Moderates c.actorUserID →
      p.state.store.speakerRequests.lookup c.requestID = some request →
      request.roomID = c.roomID → request.status = .pending → ¬ room.Moderates request.userID →
      ¬ HoldsApproval p.state c.roomID request.userID →
      -- two reads, the clock and the save come before the event
      ∀ env ∈ job.2.drop 4, env.fails = false
  | _ => True

/-- Every approval of a user who does not moderate the room is the latest decision. -/
def ApprovalsLatest (p : VoicePool) : Prop :=
  ∀ roomID userID room, p.state.store.rooms.lookup roomID = some room →
    ¬ room.Moderates userID → HoldsApproval p.state roomID userID →
    latestDecision p roomID userID = some .approved

section Step

variable {p q : VoicePool} {cmd : Command} {envs : List Env}
  {o : System.Outcome (s.system I) p (cmd, envs) q}

theorem decisionOn_declined {roomID userID : String} {res : Except AppError Reply}
    (h : decisionOn roomID userID ⟨cmd, Program.ofExcept res⟩ = some .declined) :
    ∃ c request, cmd = .declineSpeakerRequest c ∧ res = .ok (.speakerRequest request) ∧
      request.roomID = roomID ∧ request.userID = userID := by
  cases res with
  | error e => cases cmd <;> simp [decisionOn] at h
  | ok reply => cases cmd <;> cases reply <;> simp_all [decisionOn]

theorem decisionOn_revoked {roomID userID : String} {res : Except AppError Reply}
    (h : decisionOn roomID userID ⟨cmd, Program.ofExcept res⟩ = some .revoked) :
    ∃ c reply, cmd = .revokeSpeaker c ∧ res = .ok reply ∧ c.roomID = roomID ∧
      c.targetUserID = userID := by
  cases res with
  | error e => cases cmd <;> simp [decisionOn] at h
  | ok reply => cases cmd <;> cases reply <;> simp_all [decisionOn]

theorem latestDecision_eq (o : System.Outcome (s.system I) p (cmd, envs) q)
    (roomID userID : String) :
    latestDecision q roomID userID =
      (decisionOn roomID userID ⟨cmd, Program.ofExcept o.result⟩).or
        (latestDecision p roomID userID) := by
  have hth : q.threads = p.threads ++ [⟨cmd, Program.ofExcept o.result⟩] := o.threads_eq
  rw [latestDecision, latestDecision, hth, List.filterMap_append, List.getLast?_append]
  cases hd : decisionOn roomID userID ⟨cmd, Program.ofExcept o.result⟩ <;> simp [hd]

/-- A successful decline saved the request it returns. -/
theorem declined_result (r : CommandRun s I p q (cmd, envs) o) {c : DecideSpeakerRequestCommand}
    (hcmd : cmd = .declineSpeakerRequest c) {request : SpeakerRequest}
    (hres : o.result = .ok (.speakerRequest request)) : DecidedNow p.state request cmd := by
  subst hcmd
  rcases r.returns with ⟨saved, hsaved, hr | ⟨-, e, hr⟩⟩ | ⟨⟨e, hr⟩, -⟩
  · rw [hres] at hr
    cases hr
    rcases r.request_saved ((hsaved request).mpr rfl) with ⟨⟨c', hc⟩, -⟩ | hd
    · cases hc
    · exact hd
  · rw [hres] at hr; cases hr
  · rw [hres] at hr; cases hr

/-- The protocol of a decision for its event. -/
def AnnouncesLast (h : List VoiceExchange) : Effect → Prop
  | .store (.appendEvent _) | .publish _ => 4 ≤ h.length
  | _ => True

theorem decideSpeakerRequest_announces {c : DecideSpeakerRequestCommand}
    {status : SpeakerRequestStatus} {eventType : String} :
    Program.Follows (S := effects) AnnouncesLast anyResult []
      (Reply.speakerRequest <$> Service.decideSpeakerRequest c status eventType) := by
  simp [Service.decideSpeakerRequest, Service.publish, Program.map_eq, Program.bind_eq,
    Program.pure_eq, Program.bind_assoc, follows_store, Program.follows_require, follows_now,
    follows_fresh, follows_publishCall, AnnouncesLast]

/-- An event is only lost where a call behind the save fails. -/
theorem fails_of_publishFailed (r : CommandRun s I p q (cmd, envs) o)
    {c : DecideSpeakerRequestCommand} (hcmd : cmd = .approveSpeakerRequest c)
    (h : PublishFailed o.history) : ∃ env ∈ envs.drop 4, env.fails = true := by
  subst hcmd
  have hlast := o.follows r.performs decideSpeakerRequest_announces
  obtain ⟨event, err, hmem⟩ := h
  obtain ⟨e, he, hfails, hcall⟩ : ∃ e ∈ o.entries, e.env.fails = true ∧
      (e.exchange.call = .store (.appendEvent event) ∨ e.exchange.call = .publish event) := by
    rcases hmem with hmem | hmem
    all_goals
      obtain ⟨⟨i, cmd, env, x⟩, he, rfl⟩ := List.mem_map.mp hmem
      obtain ⟨w, w', hx⟩ := o.replays.executed he
      rcases World.exec_cases hx with ⟨hf, -⟩ | ⟨-, hx⟩
      · exact ⟨_, he, hf, by simp⟩
      · cases hx
  obtain ⟨newer, older, hentries⟩ := List.append_of_mem he
  have hlong : 4 ≤ older.length := by
    rw [System.Outcome.history, hentries, List.map_append, List.map_cons] at hlast
    have hhead := hlast.at
    rcases hcall with hcall | hcall <;> rw [hcall] at hhead <;> simpa [AnnouncesLast] using hhead
  have henvs : envs = (older.map (·.env)).reverse ++ e.env :: (newer.map (·.env)).reverse := by
    rw [← List.reverse_reverse envs, ← o.envs_eq r.performs, hentries]
    simp
  refine ⟨e.env, ?_, hfails⟩
  rw [henvs, List.drop_append_of_le_length (by simpa using hlong)]
  simp

/-- An approval whose event is not lost returns the request it saved. -/
theorem approved_result (r : CommandRun s I p q (cmd, envs) o) {c : DecideSpeakerRequestCommand}
    (hcmd : cmd = .approveSpeakerRequest c) (hcalm : ∀ env ∈ envs.drop 4, env.fails = false)
    {request : SpeakerRequest}
    (hsave : ⟨.store (.saveSpeakerRequest request), .ok ()⟩ ∈ o.history) :
    o.result = .ok (.speakerRequest request) := by
  have hlost := fails_of_publishFailed r hcmd
  subst hcmd
  rcases r.returns with ⟨saved, hsaved, hr | ⟨hf, -⟩⟩ | ⟨-, hno⟩
  · rw [(hsaved request).mp hsave]
    exact hr
  · obtain ⟨env, henv, hfails⟩ := hlost hf
    rw [hcalm env henv] at hfails
    cases hfails
  · exact absurd hsave (hno request)

/-- A successful revocation was by a moderator of the room. -/
theorem revoked_result (r : CommandRun s I p q (cmd, envs) o) {c : RevokeSpeakerCommand}
    (hcmd : cmd = .revokeSpeaker c) {reply : Reply} (hres : o.result = .ok reply) :
    ∃ room, p.state.store.rooms.lookup c.roomID = some room ∧ room.Moderates c.actorUserID := by
  subst hcmd
  obtain ⟨room, hread, hm⟩ := r.returns reply hres
  refine ⟨room, r.room_read (show o.entries = [] ++ o.entries from rfl) c.roomID room
    hread ?_, hm⟩
  intro x hx
  obtain ⟨e, he, rfl⟩ := List.mem_map.mp hx
  exact r.no_room_saves (fun _ _ => id) e he

/-- A decision that is not taken leaves the latest one. -/
theorem approvalsLatest_kept (r : CommandRun s I p q (cmd, envs) o)
    (hok : NoDecisionAgainstApproval p (cmd, envs)) {roomID userID : String} {room₀ : Room}
    (hroom₀ : p.state.store.rooms.lookup roomID = some room₀) (hm₀ : ¬ room₀.Moderates userID)
    (hbefore : HoldsApproval p.state roomID userID)
    (hlatest : latestDecision p roomID userID = some .approved) :
    latestDecision q roomID userID = some .approved := by
  rw [latestDecision_eq o]
  cases hd : decisionOn roomID userID ⟨cmd, Program.ofExcept o.result⟩ with
  | none => exact hlatest
  | some d =>
    cases d with
    | approved => rfl
    | declined =>
      obtain ⟨c, request, rfl, hres, rfl, rfl⟩ := decisionOn_declined hd
      obtain ⟨c', status, t, room', request₀, hc, hroom', hactor, hreq, hid, hpend, rfl⟩ :=
        declined_result r rfl hres
      cases hc
      have hroomID : request₀.roomID = c.roomID := hid.trans (r.room_id hroom')
      have hsame : room' = room₀ := by
        have hroom₀ : p.state.store.rooms.lookup request₀.roomID = some room₀ := hroom₀
        rw [hroomID, hroom'] at hroom₀
        cases hroom₀
        rfl
      subst hsame
      have hcalm := r.calm hres (by simp)
      refine absurd ?_ (hok hcalm room' request₀ hroom' hactor hreq hroomID hpend hm₀)
      rw [← hroomID]
      exact hbefore
    | revoked =>
      obtain ⟨c, reply, rfl, hres, rfl, rfl⟩ := decisionOn_revoked hd
      obtain ⟨room', hroom', hactor⟩ := revoked_result r rfl hres
      rw [hroom₀] at hroom'
      cases hroom'
      exact absurd hbefore (hok (r.calm hres (by simp)) room₀ hroom₀ hactor hm₀)

theorem approvalsLatest_step (r : CommandRun s I p q (cmd, envs) o)
    (hok : NoDecisionAgainstApproval p (cmd, envs)) (hp : ApprovalsLatest p) :
    ApprovalsLatest q := by
  intro roomID userID room hroom hm happroval
  by_cases hbefore : HoldsApproval p.state roomID userID
  · obtain ⟨room₀, hroom₀, hmod, -⟩ := approval_room r hbefore hroom
    have hm₀ : ¬ room₀.Moderates userID := mt (hmod userID).mpr hm
    exact approvalsLatest_kept r hok hroom₀ hm₀ hbefore (hp roomID userID room₀ hroom₀ hm₀ hbefore)
  · -- the command has approved the request
    rw [latestDecision_eq o]
    obtain ⟨c, room₀, request₀, request, rfl, rfl, hsave, hreqr, hrequ, hroom₀, hactor, hreq,
      hreqr₀, hrequ₀, hpend⟩ := (approval_cases r happroval).resolve_right hbefore
    have hsame := room_of_decision r rfl hroom
    cases hroom₀.symm.trans hsame
    have hcalm := hok room request₀ hroom₀ hactor hreq hreqr₀ hpend (hrequ₀.symm ▸ hm)
      (hrequ₀.symm ▸ hbefore)
    have hres := approved_result r rfl hcalm hsave
    simp [decisionOn, hres, hreqr, hrequ]

end Step

theorem approvals_latest (hok : (s.system I).SerialOk NoDecisionAgainstApproval jobs)
    (h : (s.system I).serial jobs = some p) : ApprovalsLatest p := by
  refine System.serial_induction (I := ApprovalsLatest) ?_ ?_ hok h
  · intro roomID userID room hroom
    cases hroom
  · rintro pre p ⟨cmd, envs⟩ q hp hinv hjob hq
    obtain ⟨o, r⟩ := exists_commandRun hp hq
    exact approvalsLatest_step r hjob hinv

/-- **The latest decision determines who is a speaker** after every sequential
run without a decision against a standing approval. -/
theorem latest_decision_rules (s : Service) (I : Infra) (jobs : List VoiceJob) (p : VoicePool)
    (hok : (s.system I).SerialOk NoDecisionAgainstApproval jobs)
    (h : (s.system I).serial jobs = some p) : LatestDecisionRules s I p := by
  intro roomID userID room hroom hm
  have hlatest := approvals_latest hok h roomID userID room hroom hm
  constructor
  · intro hrole
    have happroval := (resolvesTo_speaker_iff hm).mp hrole
    obtain ⟨ms, hms⟩ := System.serial_isRun h
    have hstored := lookup_rooms (System.run_replays hms) roomID
    rw [hroom] at hstored
    rw [stored_room_id hstored.symm] at happroval
    exact hlatest happroval
  · rintro ⟨cmd, envs⟩ q new e hq hnew he htoken
    obtain ⟨o, r⟩ := exists_commandRun h hq
    rw [o.trace_eq] at hnew
    obtain rfl := List.append_cancel_right hnew
    obtain ⟨room', hroom', -, hu⟩ := approval_of_token r he htoken
    rw [hroom] at hroom'
    cases hroom'
    exact hlatest (hu.resolve_left hm)

/-- The guest is approved, and then revoked. -/
def revokedSpeaker : List VoiceJob :=
  openRoom ++ promotion.take 2 ++
  [(.revokeSpeaker ⟨sampleRoom, "moderator", "guest", "", ""⟩, plain 1 ++ publishing 8)]

theorem latest_decision_rules_fails :
    ¬ ∀ (s : Service) (I : Infra) (jobs : List VoiceJob) (p : VoicePool),
      (s.system I).serial jobs = some p → LatestDecisionRules s I p := by
  intro hclaim
  have hrun : ((sampleService.system (sampleInfra fun _ => false)).serial revokedSpeaker).any
      (fun p => latestDecision p sampleRoom "guest" = some .revoked &&
        (p.state.store.rooms.lookup sampleRoom).any (fun room =>
          room.id = sampleRoom && room.resolveRole "guest" = .listener) &&
        (p.state.store.speakerRequests.lookup sampleRequest).any (fun request =>
          request.roomID = sampleRoom && request.userID = "guest" &&
          request.status = .approved)) = true := by
    decide +kernel
  obtain ⟨p, hp, hfacts⟩ := (Option.any_eq_true _ _).mp hrun
  simp only [Bool.and_eq_true, Option.any_eq_true, decide_eq_true_eq] at hfacts
  obtain ⟨⟨hlatest, room, hroom, hid, hlistener⟩, request, hreq, ⟨hr, hu⟩, hst⟩ := hfacts
  have hm := (room.resolveRole_eq_listener_iff "guest").mp hlistener
  have happroval : HoldsApproval p.state room.id "guest" :=
    ⟨sampleRequest, request, hreq, hr.trans hid.symm, hu, hst⟩
  have hrule := (hclaim _ _ _ p hp sampleRoom "guest" room hroom hm).1
    ((resolvesTo_speaker_iff hm).mpr happroval)
  rw [hlatest] at hrule
  cases hrule

/-- The guest is revoked before a request of the guest is approved. -/
def revokedFirst : List VoiceJob :=
  openRoom ++
    [(.revokeSpeaker ⟨sampleRoom, "moderator", "guest", "", ""⟩, plain 1 ++ publishing 8)] ++
    promotion

theorem revokedFirst_ok : (sampleService.system (sampleInfra fun _ => false)).SerialOk
    NoDecisionAgainstApproval revokedFirst := by
  rintro pre ⟨cmd, envs⟩ post q hsplit hq
  have hpre : pre = revokedFirst.take pre.length := by rw [hsplit, List.take_left]
  have hjob : revokedFirst[pre.length]? = some (cmd, envs) := by simp [hsplit]
  have hlt : pre.length < 6 := (List.getElem?_eq_some_iff.mp hjob).1
  rw [hpre] at hq
  generalize pre.length = i at hjob hlt hq
  cases cmd with
  | revokeSpeaker c =>
    -- there is no request yet
    interval_cases i <;> cases hjob
    have hempty : ((sampleService.system (sampleInfra fun _ => false)).serial
        (revokedFirst.take 2)).all (·.state.store.speakerRequests.keys = ∅) = true := by
      decide +kernel
    rw [hq] at hempty
    have hkeys : q.state.store.speakerRequests.keys = ∅ := of_decide_eq_true hempty
    rintro - room - - - ⟨k, request, hk, -⟩
    have hmem := Finmap.mem_keys.mpr (Finmap.mem_of_lookup_eq_some hk)
    rw [hkeys] at hmem
    cases hmem
  | declineSpeakerRequest c => interval_cases i <;> cases hjob
  | approveSpeakerRequest c =>
    have hcalm : ∀ job ∈ revokedFirst, ∀ env ∈ job.2, env.fails = false := by decide +kernel
    have hmem := List.mem_of_getElem? hjob
    exact fun _ _ _ _ _ _ _ _ _ env henv => hcalm _ hmem env (List.mem_of_mem_drop henv)
  | _ => trivial

theorem latest_decision_rules_promotion :
    ∃ p, (sampleService.system (sampleInfra fun _ => false)).serial revokedFirst = some p ∧
      (p.state.store.speakerRequests.lookup sampleRequest).any (·.status = .approved) = true ∧
      LatestDecisionRules sampleService (sampleInfra fun _ => false) p := by
  have hrun : ((sampleService.system (sampleInfra fun _ => false)).serial revokedFirst).any
      (fun p => (p.state.store.speakerRequests.lookup sampleRequest).any
        (·.status = .approved)) = true := by
    decide +kernel
  obtain ⟨p, hp, happroved⟩ := (Option.any_eq_true _ _).mp hrun
  exact ⟨p, hp, happroved, latest_decision_rules _ _ _ p revokedFirst_ok hp⟩

end WaveCast
