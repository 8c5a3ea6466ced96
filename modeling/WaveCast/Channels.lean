import WaveCast.Confinement
import WaveCast.Realtime

/-!
# The language of channels

The channels a user should be let into are named after the user, a stored room,
the moderators of a stored room, or a listener session of the user.
`authorizeChannel` lets in more: behind the id of a room it looks at the third
of exactly three parts only, and behind `listener_session:` at nothing.
-/

namespace WaveCast

open Interaction WaveCast.Action Program Service

/-- The channels of a user. -/
def InLanguage (w : World) (userID channel : String) : Prop :=
  channel = "user:" ++ userID ∨
  (∃ roomID room, w.store.rooms.lookup roomID = some room ∧ channel = "room:" ++ roomID) ∨
  (∃ roomID room, w.store.rooms.lookup roomID = some room ∧
    channel = "room:" ++ roomID ++ ":" ++ "admins" ∧ room.Moderates userID) ∨
  ∃ sessionID session, w.store.listenerSessions.lookup sessionID = some session ∧
    channel = "listener_session:" ++ sessionID ∧ session.userID = userID

/-- A channel of a stored room with something other than `admins` behind the id. -/
def BehindRoom (w : World) (channel : String) : Prop :=
  ∃ roomID room rest, w.store.rooms.lookup roomID = some room ∧
    channel = "room:" ++ roomID ++ ":" ++ rest ∧ rest ≠ "admins"

/-- A channel of a listener session that is not a stored one of the user. -/
def ForeignSession (w : World) (userID channel : String) : Prop :=
  ∃ sessionID, channel = "listener_session:" ++ sessionID ∧
    ∀ session, w.store.listenerSessions.lookup sessionID = some session → session.userID ≠ userID

/-- The ids of the stored rooms are free of colons. -/
def World.PlainRooms (w : World) : Prop :=
  ∀ roomID room, w.store.rooms.lookup roomID = some room → ':' ∉ roomID.toList

variable {I : Infra} {w : World} {userID channel : String}

/-! ## Splitting a name -/

theorem hasPrefix_iff {s pfx : String} : hasPrefix s pfx = true ↔ ∃ t, s = pfx ++ t := by
  constructor
  · intro h
    obtain ⟨t, ht⟩ := List.isPrefixOf_iff_prefix.mp h
    exact ⟨.ofList t, String.toList_inj.mp (by simp [ht])⟩
  · rintro ⟨t, rfl⟩
    exact hasPrefix_append pfx t

theorem splitColon_word : splitColon "admins" = ["admins"] := by decide

theorem splitColon_eq_singleton {s t : String} (h : splitColon s = [t]) : s = t := by
  obtain ⟨l, hl, rfl⟩ := List.map_eq_singleton_iff.mp h
  have hjoin : [':'].intercalate (s.toList.splitOn ':') = s.toList :=
    List.intercalate_splitOn ':'
  rw [hl, List.intercalate_singleton] at hjoin
  rw [hjoin, String.ofList_toList]

/-- The name of a channel behind `room:` is an id without colons, and then
nothing or a colon and a rest. -/
theorem room_name_cases (t : String) :
    ∃ roomID : String, ':' ∉ roomID.toList ∧ (t = roomID ∨ ∃ rest, t = roomID ++ ":" ++ rest) := by
  by_cases hcolon : ':' ∈ t.toList
  · obtain ⟨l, rest, hl, hnot⟩ := List.eq_append_cons_of_mem hcolon
    refine ⟨.ofList l, by simpa using hnot, .inr ⟨.ofList rest, String.toList_inj.mp ?_⟩⟩
    simp [hl]
  · exact ⟨t, hcolon, .inl rfl⟩

/-! ## What is permitted -/

theorem admitted_room {roomID : String} (h : ':' ∉ roomID.toList) :
    Admitted w userID ("room:" ++ roomID) ↔ ∃ room, w.store.rooms.lookup roomID = some room := by
  rw [Admitted, splitColon_room h]
  constructor
  · rintro (heq | ⟨-, -, -, room, hl, -⟩)
    · have huser := hasPrefix_append "user:" userID
      rw [← heq, room_not_user] at huser
      cases huser
    · exact ⟨room, hl⟩
  · rintro ⟨room, hl⟩
    exact .inr ⟨room_not_user _, hasPrefix_append _ _, by simp, room, hl, by simp⟩

/-- Of a longer name, only a third part `admins` that is the last one is checked. -/
theorem admitted_parts {roomID : String} (h : ':' ∉ roomID.toList) (rest : String) :
    Admitted w userID ("room:" ++ roomID ++ ":" ++ rest) ↔
      ∃ room, w.store.rooms.lookup roomID = some room ∧
        (rest = "admins" → room.Moderates userID) := by
  have huser : hasPrefix ("room:" ++ roomID ++ ":" ++ rest) "user:" = false := by
    rw [String.append_assoc, String.append_assoc]
    exact room_not_user _
  have hroom : hasPrefix ("room:" ++ roomID ++ ":" ++ rest) "room:" = true := by
    rw [String.append_assoc, String.append_assoc]
    exact hasPrefix_append _ _
  rw [Admitted, splitColon_parts h]
  constructor
  · rintro (heq | ⟨-, -, -, room, hl, hm⟩)
    · rw [heq, hasPrefix_append] at huser
      cases huser
    · refine ⟨room, hl, ?_⟩
      rintro rfl
      exact hm (by simp [splitColon_word]) (by simp [splitColon_word])
  · rintro ⟨room, hl, hm⟩
    refine .inr ⟨huser, hroom, by simp, room, hl, fun hlen hlast => hm ?_⟩
    -- three parts: nothing behind the third
    obtain ⟨last, hparts⟩ := List.length_eq_one_iff.mp
      (show (splitColon rest).length = 1 by simpa using hlen)
    rw [splitColon_eq_singleton hparts]
    simpa [hparts] using hlast

/-- What is let through, by the form of the name. -/
theorem permitted_iff : Permitted w userID channel ↔
    channel = "user:" ++ userID ∨
    (∃ roomID room, ':' ∉ roomID.toList ∧ w.store.rooms.lookup roomID = some room ∧
      (channel = "room:" ++ roomID ∨
        ∃ rest, channel = "room:" ++ roomID ++ ":" ++ rest ∧
          (rest = "admins" → room.Moderates userID))) ∨
    ∃ t, channel = "listener_session:" ++ t := by
  constructor
  · rintro (hadmitted | ⟨-, -, hsession⟩)
    · by_cases hroom : hasPrefix channel "room:" = true
      · obtain ⟨t, rfl⟩ := hasPrefix_iff.mp hroom
        obtain ⟨roomID, hcolon, rfl | ⟨rest, rfl⟩⟩ := room_name_cases t
        · obtain ⟨room, hl⟩ := (admitted_room hcolon).mp hadmitted
          exact .inr (.inl ⟨_, room, hcolon, hl, .inl rfl⟩)
        · rw [← String.append_assoc, ← String.append_assoc] at hadmitted ⊢
          obtain ⟨room, hl, hm⟩ := (admitted_parts hcolon rest).mp hadmitted
          exact .inr (.inl ⟨roomID, room, hcolon, hl, .inr ⟨rest, rfl, hm⟩⟩)
      · rcases hadmitted with huser | ⟨-, hroom', -⟩
        · exact .inl huser
        · exact absurd hroom' hroom
    · exact .inr (.inr (hasPrefix_iff.mp hsession))
  · rintro (huser | ⟨roomID, room, hcolon, hl, rfl | ⟨rest, rfl, hm⟩⟩ | ⟨t, rfl⟩)
    · exact .inl (.inl huser)
    · exact .inl ((admitted_room hcolon).mpr ⟨room, hl⟩)
    · exact .inl ((admitted_parts hcolon rest).mpr ⟨room, hl, hm⟩)
    · refine .inr ⟨?_, ?_, hasPrefix_append _ _⟩ <;> simp [hasPrefix, List.isPrefixOf]

theorem room_ne_user (t t' : String) : "room:" ++ t ≠ "user:" ++ t' := by
  simp [← String.toList_inj]

theorem session_ne_user (t t' : String) : "listener_session:" ++ t ≠ "user:" ++ t' := by
  simp [← String.toList_inj]

theorem session_ne_room (t t' : String) : "listener_session:" ++ t ≠ "room:" ++ t' := by
  simp [← String.toList_inj]

theorem InLanguage.permitted (hplain : w.PlainRooms) (h : InLanguage w userID channel) :
    Permitted w userID channel := by
  rw [permitted_iff]
  rcases h with huser | ⟨roomID, room, hl, hc⟩ | ⟨roomID, room, hl, hc, hm⟩ |
    ⟨sessionID, -, -, hc, -⟩
  · exact .inl huser
  · exact .inr (.inl ⟨roomID, room, hplain _ _ hl, hl, .inl hc⟩)
  · exact .inr (.inl ⟨roomID, room, hplain _ _ hl, hl, .inr ⟨_, hc, fun _ => hm⟩⟩)
  · exact .inr (.inr ⟨sessionID, hc⟩)

theorem BehindRoom.not_inLanguage (hplain : w.PlainRooms) (h : BehindRoom w channel) :
    ¬ InLanguage w userID channel := by
  obtain ⟨roomID, room, rest, hl, rfl, hrest⟩ := h
  have hparts := splitColon_parts (hplain _ _ hl) rest
  rintro (huser | ⟨roomID', room', hl', hc⟩ | ⟨roomID', room', hl', hc, -⟩ |
    ⟨sessionID, -, -, hc, -⟩)
  · rw [String.append_assoc, String.append_assoc] at huser
    exact room_ne_user _ _ huser
  · -- the id of a room would have a colon
    rw [hc, splitColon_room (hplain _ _ hl')] at hparts
    have hlen := congrArg List.length hparts
    have hne : splitColon rest ≠ [] := by simp [splitColon]
    simp [hne] at hlen
  · rw [hc, splitColon_parts (hplain _ _ hl'), splitColon_word] at hparts
    have hlast : splitColon rest = ["admins"] := (List.cons.inj (List.cons.inj hparts).2).2.symm
    exact hrest (splitColon_eq_singleton hlast)
  · rw [String.append_assoc, String.append_assoc] at hc
    exact session_ne_room _ _ hc.symm

theorem ForeignSession.not_inLanguage (h : ForeignSession w userID channel) :
    ¬ InLanguage w userID channel := by
  obtain ⟨t, rfl, hforeign⟩ := h
  rintro (huser | ⟨roomID, room, -, hc⟩ | ⟨roomID, room, -, hc, -⟩ |
    ⟨sessionID, session, hl, hc, hu⟩)
  · exact session_ne_user _ _ huser
  · exact session_ne_room _ _ hc
  · rw [String.append_assoc, String.append_assoc] at hc
    exact session_ne_room _ _ hc
  · rw [← (String.append_right_inj _).mp hc] at hl
    exact hforeign session hl hu

/-- Where more is let through than the language has. -/
theorem permitted_language (hplain : w.PlainRooms) :
    (Permitted w userID channel ↔ InLanguage w userID channel) ↔
      ¬ (BehindRoom w channel ∨ ForeignSession w userID channel) := by
  constructor
  · rintro hiff (hbehind | hforeign)
    · refine hbehind.not_inLanguage hplain (hiff.mp ?_)
      obtain ⟨roomID, room, rest, hl, hc, hrest⟩ := hbehind
      rw [permitted_iff]
      exact .inr (.inl ⟨roomID, room, hplain _ _ hl, hl,
        .inr ⟨rest, hc, fun hadmins => absurd hadmins hrest⟩⟩)
    · refine hforeign.not_inLanguage (hiff.mp ?_)
      obtain ⟨t, hc, -⟩ := hforeign
      rw [permitted_iff]
      exact .inr (.inr ⟨t, hc⟩)
  · intro hclean
    rw [not_or] at hclean
    obtain ⟨hbehind, hforeign⟩ := hclean
    refine ⟨fun hpermitted => ?_, InLanguage.permitted hplain⟩
    rcases permitted_iff.mp hpermitted with
      huser | ⟨roomID, room, -, hl, hc | ⟨rest, hc, hm⟩⟩ | ⟨t, hc⟩
    · exact .inl huser
    · exact .inr (.inl ⟨roomID, room, hl, hc⟩)
    · have hrest : rest = "admins" :=
        not_not.mp fun hne => hbehind ⟨roomID, room, rest, hl, hc, hne⟩
      exact .inr (.inr (.inl ⟨roomID, room, hl, hrest ▸ hc, hm hrest⟩))
    · by_contra hnot
      exact hforeign ⟨t, hc, fun session hl hu =>
        hnot (.inr (.inr (.inr ⟨t, session, hl, hc, hu⟩)))⟩

/-! ## What `authorizeChannel` accepts -/

/-- `authorizeChannel` can end, and always ends without an error, when nothing fails. -/
def Authorizes (I : Infra) (w : World) (userID channel : String) : Prop :=
  (∃ envs r w', Program.eval (S := effects) (World.exec I.reliable) envs
    (authorizeChannel userID channel) w = some (r, w')) ∧
  ∀ envs r w', Program.eval (S := effects) (World.exec I.reliable) envs
    (authorizeChannel userID channel) w = some (r, w') → r = .ok ()

theorem authorizeChannel_ends (I : Infra) (w : World) (userID channel : String) :
    ∃ envs r w', Program.eval (S := effects) (World.exec I) envs
      (authorizeChannel userID channel) w = some (r, w') := by
  refine exists_eval_of_peeks I w (h := []) ?_
  rw [← bind_ret (authorizeChannel userID channel)]
  exact authorizeChannel_peeks fun _ => trivial

theorem authorizes_iff : Authorizes I w userID channel ↔ Permitted w userID channel := by
  have hbind := bind_ret (authorizeChannel userID channel)
  constructor
  · rintro ⟨⟨envs, r, w', he⟩, hall⟩
    have hens : Ensures (S := effects) (World.exec I.reliable)
        (fun _ r _ => r = .ok () → Permitted w userID channel) [] w
        (authorizeChannel userID channel) := by
      rw [← hbind]
      exact authorizeChannel_ensures (fun _ hpermitted _ => hpermitted) (by simp)
    obtain ⟨-, hr⟩ := hens.eval he
    exact hr (hall envs r w' he)
  · intro hpermitted
    refine ⟨authorizeChannel_ends _ w userID channel, fun envs r w' he => ?_⟩
    have hens : Ensures (S := effects) (World.exec I.reliable) (fun _ r _ => r = .ok ()) [] w
        (authorizeChannel userID channel) := by
      rw [← hbind]
      rcases hpermitted with hadmitted | ⟨huser, hroom, hsession⟩
      · exact authorizeChannel_admits hadmitted fun _ => rfl
      · rw [authorizeChannel, if_neg (by simp [huser]), if_neg (by simp [hroom]), if_pos hsession]
        rfl
    obtain ⟨-, hr⟩ := hens.eval he
    exact hr

/-- In every state of the service the ids of the stored rooms are free of colons. -/
theorem run_plainRooms {s : Service} {ms : List VoiceMove} {p : VoicePool}
    (h : (s.system I).run ms = some p) : p.state.PlainRooms := by
  intro roomID room hl
  rw [lookup_rooms (System.run_replays h)] at hl
  exact IssuedRoom.no_colon h ((rooms_evolve h).drawn (by simp [hl]))

/-- **The channels a user is let into** are those of the language exactly when
the channel neither has anything but `admins` behind the id of a stored room nor
names a listener session that is not a stored one of the user. -/
theorem channel_language_iff (I : Infra) (w : World) (hplain : w.PlainRooms)
    (userID channel : String) :
    (Authorizes I w userID channel ↔ InLanguage w userID channel) ↔
      ¬ (BehindRoom w channel ∨ ForeignSession w userID channel) := by
  rw [authorizes_iff, permitted_language hplain]

/-- The channel of the room is open to a guest. -/
theorem channel_language_guest :
    ∃ p, (sampleService.system (sampleInfra fun _ => false)).run
        (movesFrom 0 (openRoom ++ [guestJoins])) = some p ∧ p.state.PlainRooms ∧
      Authorizes (sampleInfra fun _ => false) p.state "guest" ("room:" ++ sampleRoom) := by
  have hrun : ((sampleService.system (sampleInfra fun _ => false)).run
      (movesFrom 0 (openRoom ++ [guestJoins]))).any (fun p =>
        (p.state.store.rooms.lookup sampleRoom).isSome) = true := by decide +kernel
  obtain ⟨p, hp, hroom⟩ := (Option.any_eq_true _ _).mp hrun
  obtain ⟨room, hl⟩ := Option.isSome_iff_exists.mp hroom
  have hplain := run_plainRooms hp
  refine ⟨p, hp, hplain, (channel_language_iff _ p.state hplain "guest" _).mpr ?_
    |>.mpr (.inr (.inl ⟨sampleRoom, room, hl, rfl⟩))⟩
  rintro (⟨roomID, _, rest, -, hc, -⟩ | ⟨sessionID, hc, -⟩)
  · rw [String.append_assoc, String.append_assoc, String.append_right_inj] at hc
    have hcolon := newID_no_colon (sampleUlid 0)
    rw [show newID prefixRoom (sampleUlid 0) = sampleRoom from rfl, hc] at hcolon
    simp at hcolon
  · exact session_ne_room _ _ hc.symm

/-- An outsider is let into the channel of the guest's listener session. -/
theorem channel_language_fails :
    ∃ p, (sampleService.system (sampleInfra fun _ => false)).run
        (movesFrom 0 (openRoom ++ [guestJoins])) = some p ∧ p.state.PlainRooms ∧
      Authorizes (sampleInfra fun _ => false) p.state "outsider"
        ("listener_session:" ++ guestSession) ∧
      ¬ InLanguage p.state "outsider" ("listener_session:" ++ guestSession) := by
  have hrun : ((sampleService.system (sampleInfra fun _ => false)).run
      (movesFrom 0 (openRoom ++ [guestJoins]))).any (fun p =>
        (p.state.store.listenerSessions.lookup guestSession).any (·.userID = "guest")) = true := by
    decide +kernel
  obtain ⟨p, hp, hsession⟩ := (Option.any_eq_true _ _).mp hrun
  obtain ⟨session, hl, huser⟩ := (Option.any_eq_true _ _).mp hsession
  have hpermitted : Permitted p.state "outsider" ("listener_session:" ++ guestSession) :=
    permitted_iff.mpr (.inr (.inr ⟨_, rfl⟩))
  refine ⟨p, hp, run_plainRooms hp, authorizes_iff.mpr hpermitted, ?_⟩
  refine ForeignSession.not_inLanguage ⟨guestSession, rfl, fun session' hl' => ?_⟩
  obtain rfl := Option.some.inj (hl.symm.trans hl')
  rw [of_decide_eq_true huser]
  decide

end WaveCast
