import WaveCast.WellFormed

/-!
# Ids in requests

`userID` and `createRoom` of `internal/transport/http`. The acting user of a
request is trimmed, and so are the admins and moderators of a new room, but not
its owner: the ids a room was created with keep their roles exactly when the
owner's has no white space around it (`creation_roles_iff`).
-/

namespace WaveCast

open Interaction WaveCast.Action Program Service

namespace Router

/-- `header` is the value of `X-User-ID`, empty if there is none. -/
def userID (header fallback : String) : String :=
  if trimSpace header ≠ "" then trimSpace header else trimSpace fallback

structure CreateRoomRequest where
  title : String
  ownerID : String
  adminIDs : List String
  moderatorIDs : List String
  deriving DecidableEq, Repr

/-- The command that `createRoom` makes of a decoded request. -/
def createRoomCommand (header correlationID : String) (req : CreateRoomRequest) :
    CreateRoomCommand :=
  { title := req.title
    ownerID := if req.ownerID = "" then userID header "" else req.ownerID
    adminIDs := req.adminIDs
    moderatorIDs := req.moderatorIDs
    correlationID }

/-- `userID` finds `x` in the header, or in the body or query if the header is blank. -/
inductive ActsAs (x : String) : String → Prop where
  | header (fallback : String) (h : trimSpace x ≠ "") : ActsAs x (userID x fallback)
  | fallback (header : String) (h : trimSpace header = "") : ActsAs x (userID header x)

theorem actsAs_iff {x user : String} : ActsAs x user ↔ user = trimSpace x := by
  constructor
  · rintro (⟨_, h⟩ | ⟨_, h⟩) <;> simp [userID, h]
  · rintro rfl
    have hx : userID "" x = trimSpace x := by simp [userID, show trimSpace "" = "" by decide]
    exact hx ▸ .fallback "" (by decide)

end Router

/-! ## Trimmed ids -/

/-- Trimming again changes nothing. -/
theorem trimSpace_trimSpace (s : String) : trimSpace (trimSpace s) = trimSpace s := by
  have hl : ∀ l : List Char, trimChars isSpace (trimChars isSpace l) = trimChars isSpace l := by
    intro l
    have hright : (trimChars isSpace l).reverse.dropWhile isSpace =
        (trimChars isSpace l).reverse := by
      simp only [trimChars, List.reverse_reverse]
      exact List.dropWhile_idempotent _ _
    have hleft : (trimChars isSpace l).dropWhile isSpace = trimChars isSpace l := by
      have hfirst : trimChars isSpace l <+: l.dropWhile isSpace := List.rdropWhile_prefix _ _
      rw [List.dropWhile_eq_self_iff]
      intro hlen
      rw [hfirst.getElem hlen]
      exact List.dropWhile_get_zero_not _ l _
    rw [trimChars, hleft, hright, List.reverse_reverse]
  simp only [trimSpace, String.toList_ofList, hl]

/-- The strings without repetition are the trims that are not blank. -/
theorem mem_uniqueStrings {values : List String} {x : String} :
    x ∈ uniqueStrings values ↔ x ≠ "" ∧ ∃ v ∈ values, trimSpace v = x := by
  have hgo : ∀ seen, x ∈ uniqueStrings.go seen values ↔
      x ≠ "" ∧ x ∉ seen ∧ ∃ v ∈ values, trimSpace v = x := by
    induction values with
    | nil => simp [uniqueStrings.go]
    | cons v vs ih =>
      intro seen
      rw [uniqueStrings.go]
      split
      · rw [ih]
        grind
      split
      · rw [ih]
        grind
      · rw [List.mem_cons, ih]
        grind
  rw [uniqueStrings, hgo]
  simp

/-! ## The room that was created -/

/-- What `CreateRoom` has saved when it returns a room. -/
def CreateReturns (s : Service) (h : List VoiceExchange) (r : Except AppError Reply) :
    Command → Prop
  | .createRoom c => ∀ room, r = .ok (.room room) → trimSpace c.ownerID ≠ "" ∧
      ⟨.store (.saveRoom room), .ok ()⟩ ∈ h ∧
      ∃ roomID listenerStreamID t, room = s.draftRoom c roomID listenerStreamID t
  | _ => True

theorem program_createReturns (s : Service) (cmd : Command) :
    Follows (S := effects) (fun _ _ => True) (fun h r => CreateReturns s h r cmd) []
      (s.program cmd) := by
  have hany : ∀ p : Action Reply, Follows (S := effects) (fun _ _ => True) (fun _ _ => True) [] p :=
    follows_of_forall (fun _ _ => trivial) (fun _ _ => trivial) _
  cases cmd with
  | createRoom c =>
    simp only [Service.program, createRoom, publish, map_eq, bind_eq, pure_eq, bind_assoc,
      follows_store, follows_require, follows_now, follows_fresh, follows_publishCall, true_and,
      ret_bind, follows_ret, CreateReturns]
    simp
  | _ => simp only [CreateReturns, hany]

variable {s : Service} {I : Infra} {ms : List VoiceMove} {p : VoicePool}

/-- The room that `CreateRoom` returned is stored ever after, with its owner and its lists. -/
theorem created_room_stored (h : (s.system I).run ms = some p) {i : ℕ} {c : CreateRoomCommand}
    {created : Room} (hi : p.threads[i]? = some ⟨.createRoom c, .ret (.room created)⟩) :
    trimSpace c.ownerID ≠ "" ∧ ∃ room, p.state.store.rooms.lookup created.id = some room ∧
      room.ownerID = c.ownerID ∧ room.adminIDs = uniqueStrings c.adminIDs ∧
      room.moderatorIDs = uniqueStrings c.moderatorIDs := by
  obtain ⟨howner, hsaved, roomID, listenerStreamID, t, rfl⟩ :=
    (System.run_obeys (program_createReturns s) h).1 i _ _ hi _ rfl
  obtain ⟨e, he, -, hx⟩ := mem_threadHistory.mp hsaved
  obtain ⟨newer, older, ht⟩ := List.append_of_mem he
  have hw : roomSaves e = some (roomID, s.draftRoom c roomID listenerStreamID t) :=
    savedRoom_eq_some.mpr ⟨hx, rfl⟩
  obtain ⟨room, hl, hident⟩ := stored_room_kept (fun _ _ _ => RoomChange.identity_eq) h
    ⟨newer, e :: older, ht, lastWrite_cons_self hw⟩
  simp only [Room.identity, draftRoom, Prod.mk.injEq] at hident
  obtain ⟨-, h₁, h₂, h₃, -⟩ := hident
  exact ⟨howner, room, hl, h₁, h₂, h₃⟩

/-- A role of the room itself is resolved without asking the store. -/
theorem resolveRole_pure_iff {room : Room} {userID : String} {role : RoomRole}
    (hrole : role ≠ .listener) :
    Service.resolveRole room userID = pure role ↔ room.resolveRole userID = role := by
  rw [Service.resolveRole]
  split
  · simp only [pure_eq, Program.ret.injEq]
  · rename_i hlistener
    rw [not_not] at hlistener
    rw [hlistener]
    simp [Action.ask, Program.perform, bind_eq, hrole.symm]

/-- Every id that was listed resolves, in the room as it is stored, to owner if it is
the owner's, and else to a role that can moderate if it is listed and not blank. -/
def KeepsRoles (w : World) (roomID : String) (c : CreateRoomCommand) : Prop :=
  ∃ room, w.store.rooms.lookup roomID = some room ∧ ∀ x user, Router.ActsAs x user →
    (x = c.ownerID → Service.resolveRole room user = pure .owner) ∧
    (x ≠ c.ownerID → trimSpace x ≠ "" → x ∈ c.adminIDs ∨ x ∈ c.moderatorIDs →
      ∃ role, roleCanModerate role = true ∧ Service.resolveRole room user = pure role)

theorem resolveRole_owner_iff {room : Room} {userID : String} :
    room.resolveRole userID = .owner ↔ userID ≠ "" ∧ room.ownerID = userID := by
  simp only [Room.resolveRole]
  split
  · simp [*]
  split
  · simp [*]
  split
  · simp [*]
  split <;> simp [*]

/-- The roles are kept iff the owner that was given is trimmed. -/
theorem keepsRoles_iff {w : World} {roomID : String} {c : CreateRoomCommand} {room : Room}
    (hl : w.store.rooms.lookup roomID = some room) (howner : room.ownerID = c.ownerID)
    (hadmins : room.adminIDs = uniqueStrings c.adminIDs)
    (hmods : room.moderatorIDs = uniqueStrings c.moderatorIDs)
    (hblank : trimSpace c.ownerID ≠ "") :
    KeepsRoles w roomID c ↔ trimSpace c.ownerID = c.ownerID := by
  constructor
  · rintro ⟨room', hl', hroles⟩
    obtain rfl := Option.some.inj (hl.symm.trans hl')
    have hrole := (hroles c.ownerID _ (Router.actsAs_iff.mpr rfl)).1 rfl
    rw [resolveRole_pure_iff (by decide), resolveRole_owner_iff, howner] at hrole
    exact hrole.2.symm
  · intro htrim
    refine ⟨room, hl, fun x user hacts => ?_⟩
    obtain rfl := Router.actsAs_iff.mp hacts
    refine ⟨?_, fun _ hx hlisted => ?_⟩
    · rintro rfl
      rw [resolveRole_pure_iff (by decide), resolveRole_owner_iff]
      exact ⟨hblank, howner.trans htrim.symm⟩
    · have hmoderates : room.Moderates (trimSpace x) := by
        refine ⟨hx, .inr ?_⟩
        rw [hadmins, hmods, mem_uniqueStrings, mem_uniqueStrings]
        exact hlisted.imp (fun hm => ⟨hx, x, hm, rfl⟩) fun hm => ⟨hx, x, hm, rfl⟩
      refine ⟨_, (room.canModerate_iff _).mpr hmoderates, ?_⟩
      rw [resolveRole_pure_iff]
      rw [ne_eq, room.resolveRole_eq_listener_iff, not_not]
      exact hmoderates

/-- The owner of the command is trimmed iff that of the request is: one from the
header always is. -/
theorem createRoomCommand_trimmed_iff (header correlationID : String)
    (req : Router.CreateRoomRequest) :
    trimSpace (Router.createRoomCommand header correlationID req).ownerID =
        (Router.createRoomCommand header correlationID req).ownerID ↔
      trimSpace req.ownerID = req.ownerID := by
  simp only [Router.createRoomCommand]
  split
  · rename_i hempty
    have hblank : trimSpace "" = "" := by decide
    rw [hempty, hblank, Router.userID]
    split <;> simp only [trimSpace_trimSpace]
  · exact Iff.rfl

/-- **Ids given at room creation keep their roles**, in every state of a run
since the room was created, iff the owner's id has no white space around it. -/
theorem creation_roles_iff (s : Service) (I : Infra) (header correlationID : String)
    (req : Router.CreateRoomRequest) (ms : List VoiceMove) (p : VoicePool)
    (h : (s.system I).run ms = some p) (i : ℕ) (created : Room)
    (hi : p.threads[i]? = some
      ⟨.createRoom (Router.createRoomCommand header correlationID req), .ret (.room created)⟩) :
    KeepsRoles p.state created.id (Router.createRoomCommand header correlationID req) ↔
      trimSpace req.ownerID = req.ownerID := by
  obtain ⟨hblank, room, hl, howner, hadmins, hmods⟩ := created_room_stored h hi
  rw [keepsRoles_iff hl howner hadmins hmods hblank, createRoomCommand_trimmed_iff]

/-- The room a command has returned. -/
def returnedRoom : Action Reply → Option Room
  | .ret (.room room) => some room
  | _ => none

theorem returnedRoom_eq_some {rest : Action Reply} {room : Room} :
    returnedRoom rest = some room ↔ rest = .ret (.room room) := by
  unfold returnedRoom
  split <;> simp_all

/-- A room is created as the request asks. -/
def createMoves (req : Router.CreateRoomRequest) : List VoiceMove :=
  movesFrom 0 [(.createRoom (Router.createRoomCommand "" "" req),
    plain 1 ++ drawing 0 ++ drawing 1 ++ plain 1 ++ publishing 2)]

/-- Thread 0 has created the room of the request. -/
def hasCreated (req : Router.CreateRoomRequest) (p : VoicePool) : Bool :=
  (p.threads[0]?).any fun t =>
    t.cmd = .createRoom (Router.createRoomCommand "" "" req) && (returnedRoom t.rest).isSome

theorem exists_created {req : Router.CreateRoomRequest} {p : VoicePool}
    (h : hasCreated req p = true) : ∃ created, p.threads[0]? =
      some ⟨.createRoom (Router.createRoomCommand "" "" req), .ret (.room created)⟩ := by
  obtain ⟨⟨cmd, rest⟩, hi, ht⟩ := (Option.any_eq_true _ _).mp h
  obtain ⟨hcmd, hrest⟩ := Bool.and_eq_true_iff.mp ht
  obtain rfl := of_decide_eq_true hcmd
  obtain ⟨created, hrest⟩ := Option.isSome_iff_exists.mp hrest
  obtain rfl := returnedRoom_eq_some.mp hrest
  exact ⟨created, hi⟩

def spacedLists : Router.CreateRoomRequest := ⟨"title", "owner", [" admin "], ["moderator"]⟩

/-- White space around the ids of the lists does no harm. -/
theorem creation_roles_spaced :
    ∃ p created, (sampleService.system (sampleInfra fun _ => false)).run
        (createMoves spacedLists) = some p ∧
      p.threads[0]? = some
        ⟨.createRoom (Router.createRoomCommand "" "" spacedLists), .ret (.room created)⟩ ∧
      KeepsRoles p.state created.id (Router.createRoomCommand "" "" spacedLists) := by
  have hrun : ((sampleService.system (sampleInfra fun _ => false)).run
      (createMoves spacedLists)).any (hasCreated spacedLists) = true := by decide +kernel
  obtain ⟨p, hp, hcreated⟩ := (Option.any_eq_true _ _).mp hrun
  obtain ⟨created, hi⟩ := exists_created hcreated
  have hroles := creation_roles_iff _ _ "" "" spacedLists _ p hp 0 created hi
  exact ⟨p, created, hp, hi, hroles.mpr (by decide)⟩

def spacedOwner : Router.CreateRoomRequest := ⟨"title", " owner", [], []⟩

/-- An owner given with a space is a stranger to the room. -/
theorem creation_roles_fails :
    ∃ p created, (sampleService.system (sampleInfra fun _ => false)).run
        (createMoves spacedOwner) = some p ∧
      p.threads[0]? = some
        ⟨.createRoom (Router.createRoomCommand "" "" spacedOwner), .ret (.room created)⟩ ∧
      ¬ KeepsRoles p.state created.id (Router.createRoomCommand "" "" spacedOwner) := by
  have hrun : ((sampleService.system (sampleInfra fun _ => false)).run
      (createMoves spacedOwner)).any (hasCreated spacedOwner) = true := by decide +kernel
  obtain ⟨p, hp, hcreated⟩ := (Option.any_eq_true _ _).mp hrun
  obtain ⟨created, hi⟩ := exists_created hcreated
  obtain ⟨hblank, room, hl, howner, hadmins, hmods⟩ := created_room_stored hp hi
  refine ⟨p, created, hp, hi, ?_⟩
  rw [keepsRoles_iff hl howner hadmins hmods hblank]
  decide

end WaveCast
