import TickGrinder.Spawner

/-!
# The heartbeat

When every living record is named by a well-formed `Pong`, the turn changes nothing. Otherwise it
takes the first record no `Pong` names, removes the last record with that uuid, and appends a
record for the uuid again only when the `Type` query returned `Info`: an instance that answers
the query with any other response loses its record just as one that never answers.

So over any run of the loop the uuids of the living list only shrink, as a multiset: the loop
never invents an instance, and it drops one only when the `Type` query does not return `Info`.
While the same instances stay silent, each turn drops one of their records and keeps the others
in order (`heartbeat_silent`), so the loop clears them all in as many turns as they have records.
-/

namespace TickGrinder.InstanceManager

/-- A well-formed `Pong` among the responses carries the uuid's hyphenated text first. -/
def Answered (responses : List Response) (u : Uuid) : Prop :=
  ∃ a rest, Response.pong (a :: rest) ∈ responses ∧ a = u.hyphenated

variable {L : List Instance} {R : List Response} {u : Uuid}

theorem any_namesInstance_iff : R.any (namesInstance u) = true ↔ Answered R u := by
  simp only [List.any_eq_true, Answered]
  constructor
  · rintro ⟨r, hr, hn⟩
    rcases r with _ | _ | (_ | ⟨a, rest⟩) | _ <;> simp [namesInstance] at hn
    exact ⟨a, rest, hr, hn.symm⟩
  · rintro ⟨a, rest, hr, rfl⟩
    exact ⟨_, hr, by simp [namesInstance]⟩

theorem not_any_namesInstance_iff : (!R.any (namesInstance u)) = true ↔ ¬ Answered R u := by
  rw [← any_namesInstance_iff]
  cases R.any (namesInstance u) <;> simp

theorem getMissingInstance_eq_none :
    getMissingInstance L R = none ↔ ∀ x ∈ L, Answered R x.uuid := by
  simp only [getMissingInstance, List.find?_eq_none, not_any_namesInstance_iff, not_not]

theorem getMissingInstance_append {pre post : List Instance} {dead : Instance}
    (hpre : ∀ x ∈ pre, Answered R x.uuid) (hd : ¬ Answered R dead.uuid) :
    getMissingInstance (pre ++ dead :: post) R = some dead := by
  have hnone : getMissingInstance pre R = none := getMissingInstance_eq_none.2 hpre
  simp only [getMissingInstance] at hnone
  simp only [getMissingInstance, List.find?_append, hnone, Option.none_or, List.find?_cons,
    not_any_namesInstance_iff.2 hd]

theorem foldl_enumFrom_of_not_mem :
    ∀ (l : List Instance) (n : ℕ) (acc : Option ℕ), u ∉ l.map Instance.uuid →
      (l.enumFrom n).foldl (fun i p => if p.2.uuid = u then some p.1 else i) acc = acc
  | [], _, _, _ => rfl
  | x :: l, n, acc, h => by
    simp only [List.map_cons, List.mem_cons, not_or] at h
    rw [List.enumFrom_cons, List.foldl_cons, if_neg fun e => h.1 e.symm]
    exact foldl_enumFrom_of_not_mem l (n + 1) acc h.2

/-- `remove_instance` removes the last record with the uuid and keeps the others in order. -/
theorem removeInstance_split {pre post : List Instance} {x : Instance} (hx : x.uuid = u)
    (hpost : u ∉ post.map Instance.uuid) : removeInstance (pre ++ x :: post) u = pre ++ post := by
  have hlast : lastIndexOf (pre ++ x :: post) u = some pre.length := by
    rw [lastIndexOf, List.enum_append, List.foldl_append, List.enumFrom_cons, List.foldl_cons,
      if_pos hx]
    exact foldl_enumFrom_of_not_mem post _ _ hpost
  simp only [removeInstance, hlast]
  rw [List.eraseIdx_append_of_length_le le_rfl, Nat.sub_self]
  rfl

/-- A uuid that has a record has a last one. -/
theorem exists_last_split : ∀ {l : List Instance}, u ∈ l.map Instance.uuid →
    ∃ pre x post, l = pre ++ x :: post ∧ x.uuid = u ∧ u ∉ post.map Instance.uuid
  | [], h => absurd h (List.not_mem_nil _)
  | y :: ys, h => by
    by_cases hys : u ∈ ys.map Instance.uuid
    · obtain ⟨pre, x, post, rfl, hx, hpost⟩ := exists_last_split hys
      exact ⟨y :: pre, x, post, rfl, hx, hpost⟩
    · have hy : y.uuid = u := by simpa [hys, eq_comm] using h
      exact ⟨[], y, ys, rfl, hy, hys⟩

theorem heartbeat_of_missing {dead : Instance} (p : Except String Response)
    (h : getMissingInstance L R = some dead) :
    heartbeat L R p = removeInstance L dead.uuid ++ match p with
      | .ok (.info info) => [⟨info, dead.uuid⟩]
      | _ => [] := by
  rcases p with _ | (_ | _ | _ | _) <;> simp [heartbeat, h, addInstance]

/-- A record whose uuid a `Pong` names survives the turn. -/
theorem mem_heartbeat {x : Instance} (hx : x ∈ L) (ha : Answered R x.uuid)
    (p : Except String Response) : x ∈ heartbeat L R p := by
  rcases hm : getMissingInstance L R with _ | dead
  · simpa only [heartbeat, hm] using hx
  have hfind := List.find?_some hm
  have hna : ¬ Answered R dead.uuid := not_any_namesInstance_iff.1 hfind
  obtain ⟨pre, y, post, hL, hy, hpost⟩ :=
    exists_last_split (List.mem_map_of_mem _ (List.mem_of_find?_eq_some hm))
  have hxy : x ≠ y := fun h => hna (hy ▸ h ▸ ha)
  rw [heartbeat_of_missing p hm, hL, removeInstance_split hy hpost]
  rw [hL] at hx
  simp only [List.mem_append, List.mem_cons, hxy, false_or] at hx
  exact List.mem_append_left _ (List.mem_append.2 hx)

/-- One turn of the heartbeat: nothing changes while every record is named by a `Pong`; otherwise
the first record no `Pong` names is probed, the last record with its uuid is removed and no other,
and a record for it is appended only when the `Type` query returned `Info`. No record a `Pong`
names loses its uuid. -/
theorem heartbeat_probes_first_missing (L : List Instance) (R : List Response)
    (p : Except String Response) :
    ((∀ x ∈ L, Answered R x.uuid) → heartbeat L R p = L) ∧
    (∀ pre dead post, L = pre ++ dead :: post → (∀ x ∈ pre, Answered R x.uuid) →
      ¬ Answered R dead.uuid →
      ∃ pre' x post', L = pre' ++ x :: post' ∧ x.uuid = dead.uuid ∧
        dead.uuid ∉ post'.map Instance.uuid ∧
        heartbeat L R p = pre' ++ post' ++ match p with
          | .ok (.info info) => [⟨info, dead.uuid⟩]
          | _ => []) ∧
    ∀ x ∈ L, Answered R x.uuid → ∃ y ∈ heartbeat L R p, y.uuid = x.uuid := by
  have hsplit : ∀ dead, getMissingInstance L R = some dead →
      ∃ pre' x post', L = pre' ++ x :: post' ∧ x.uuid = dead.uuid ∧
        dead.uuid ∉ post'.map Instance.uuid ∧
        heartbeat L R p = pre' ++ post' ++ match p with
          | .ok (.info info) => [⟨info, dead.uuid⟩]
          | _ => [] := fun dead h => by
    obtain ⟨pre', x, post', hL, hx, hpost⟩ :=
      exists_last_split (List.mem_map_of_mem _ (List.mem_of_find?_eq_some h))
    refine ⟨pre', x, post', hL, hx, hpost, ?_⟩
    rw [heartbeat_of_missing p h, hL, removeInstance_split hx hpost]
  refine ⟨fun h => by simp [heartbeat, getMissingInstance_eq_none.2 h],
    fun pre dead post hL hpre hd => hsplit dead (hL ▸ getMissingInstance_append hpre hd),
    fun x hx hans => ?_⟩
  rcases hm : getMissingInstance L R with _ | dead
  · exact ⟨x, by simpa [heartbeat, hm] using hx, rfl⟩
  obtain ⟨pre', x', post', hL, hx', -, hbeat⟩ := hsplit dead hm
  have hf := List.find?_some
    (show L.find? (fun inst => !R.any (namesInstance inst.uuid)) = some dead from hm)
  have hdead : ¬ Answered R dead.uuid := not_any_namesInstance_iff.1 hf
  have hne : x ≠ x' := fun h => hdead (hx' ▸ h ▸ hans)
  rw [hL, List.mem_append, List.mem_cons] at hx
  refine ⟨x, ?_, rfl⟩
  rw [hbeat, List.append_assoc, List.mem_append, List.mem_append]
  rcases hx with hx | hx | hx
  · exact .inl hx
  · exact absurd hx hne
  · exact .inr (.inl hx)

/-- An instance that answers the `Type` query with `Ok` rather than `Info` is dropped. -/
theorem heartbeat_drops_type_responder :
    heartbeat [⟨"Backtester", Uuid.ofByte 1⟩] [] (.ok .ok) = [] := by
  decide

/-! ## The heartbeat loop -/

/-- One turn keeps a sub-multiset of the uuids, and all of them when the `Type` query returned
`Info`. -/
theorem heartbeat_uuids (L : List Instance) (R : List Response) (p : Except String Response) :
    List.Subperm ((heartbeat L R p).map Instance.uuid) (L.map Instance.uuid) ∧
      ((∃ info, p = .ok (.info info)) →
        List.Perm ((heartbeat L R p).map Instance.uuid) (L.map Instance.uuid)) := by
  rcases hm : getMissingInstance L R with _ | dead
  · simp only [heartbeat, hm]
    exact ⟨List.Subperm.refl _, fun _ => List.Perm.refl _⟩
  obtain ⟨pre, x, post, hL, hx, hpost⟩ :=
    exists_last_split (List.mem_map_of_mem _ (List.mem_of_find?_eq_some hm))
  have hsub : List.Sublist ((pre ++ post).map Instance.uuid) ((pre ++ x :: post).map Instance.uuid) := by
    simp
  have hperm : ∀ info : String, List.Perm ((pre ++ post ++ [Instance.mk info dead.uuid]).map Instance.uuid)
      ((pre ++ x :: post).map Instance.uuid) := fun info => by
    simpa [hx] using List.perm_append_comm.append_left (pre.map Instance.uuid)
  rw [heartbeat_of_missing p hm, hL, removeInstance_split hx hpost]
  split
  · rename_i info
    exact ⟨(hperm info).subperm, fun _ => hperm info⟩
  · rename_i hne
    rw [List.append_nil]
    exact ⟨hsub.subperm, fun ⟨info, h⟩ => absurd h (hne info)⟩

theorem heartbeats_uuids (L : List Instance) :
    ∀ turns : List (List Response × Except String Response),
      List.Subperm ((heartbeats L turns).map Instance.uuid) (L.map Instance.uuid) ∧
        ((∀ t ∈ turns, ∃ info, t.2 = .ok (.info info)) →
          List.Perm ((heartbeats L turns).map Instance.uuid) (L.map Instance.uuid))
  | [] => ⟨List.Subperm.refl _, fun _ => List.Perm.refl _⟩
  | (R, p) :: turns => by
    have ih := heartbeats_uuids (heartbeat L R p) turns
    have hstep := heartbeat_uuids L R p
    exact ⟨ih.1.trans hstep.1, fun h =>
      (ih.2 fun t ht => h t (.tail _ ht)).trans (hstep.2 (h _ (.head _)))⟩

theorem heartbeats_of_answered (L : List Instance) :
    ∀ turns : List (List Response × Except String Response),
      (∀ t ∈ turns, ∀ x ∈ L, Answered t.1 x.uuid) → heartbeats L turns = L
  | [], _ => rfl
  | (R, p) :: turns, h => by
    have hL : heartbeat L R p = L := by
      simp [heartbeat, getMissingInstance_eq_none.2 (h _ (.head _))]
    rw [heartbeats, hL]
    exact heartbeats_of_answered L turns fun t ht => h t (.tail _ ht)

/-- Over any run of the heartbeat loop the living list only loses uuids: the heartbeat never
registers an instance it did not have, nor a second record of one. When every `Type` query
returns `Info` it loses none, only moving the probed records to the back, and while every record
answers every `Ping` nothing changes. -/
theorem heartbeat_loop_only_drops (L : List Instance)
    (turns : List (List Response × Except String Response)) :
    List.Subperm ((heartbeats L turns).map Instance.uuid) (L.map Instance.uuid) ∧
    ((∀ t ∈ turns, ∃ info, t.2 = .ok (.info info)) →
      List.Perm ((heartbeats L turns).map Instance.uuid) (L.map Instance.uuid)) ∧
    ((∀ t ∈ turns, ∀ x ∈ L, Answered t.1 x.uuid) → heartbeats L turns = L) :=
  ⟨(heartbeats_uuids L turns).1, (heartbeats_uuids L turns).2, heartbeats_of_answered L turns⟩

/-! ## Silent instances -/

section Silent

variable (alive : Uuid → Bool) {p : Except String Response}

/-- A turn in which the `Pong`s name exactly the live uuids and the `Type` query does not return
`Info` drops one silent record, if there is one, and keeps the live records in order. -/
theorem heartbeat_silent (hR : ∀ u, Answered R u ↔ alive u = true)
    (hp : ∀ info, p ≠ .ok (.info info)) :
    (heartbeat L R p).filter (fun x => alive x.uuid) = L.filter (fun x => alive x.uuid) ∧
      ((heartbeat L R p).filter fun x => !alive x.uuid).length =
        (L.filter fun x => !alive x.uuid).length - 1 := by
  rcases hm : getMissingInstance L R with _ | dead
  · have hall := getMissingInstance_eq_none.1 hm
    have hnil : L.filter (fun x => !alive x.uuid) = [] :=
      List.filter_eq_nil_iff.2 fun x hx => by simp [(hR _).1 (hall x hx)]
    simp [heartbeat, hm, hnil]
  have hfind := List.find?_some hm
  have hdead : alive dead.uuid = false := by
    simpa [hR] using not_any_namesInstance_iff.1 hfind
  obtain ⟨pre, y, post, hL, hy, hpost⟩ :=
    exists_last_split (List.mem_map_of_mem _ (List.mem_of_find?_eq_some hm))
  have hprobe : (match p with
      | .ok (.info info) => [(⟨info, dead.uuid⟩ : Instance)]
      | _ => []) = [] := by
    split
    exacts [absurd rfl (hp _), rfl]
  rw [heartbeat_of_missing p hm, hprobe, hL, removeInstance_split hy hpost]
  simp [List.filter_append, List.filter_cons, hy, hdead]

/-- Over turns in which the `Pong`s name exactly the live uuids and no `Type` query returns `Info`,
the live records stay, in order, and one silent record goes per turn while there is one. -/
theorem heartbeats_silent :
    ∀ (L : List Instance) (turns : List (List Response × Except String Response)),
      (∀ t ∈ turns, ∀ u, Answered t.1 u ↔ alive u = true) →
      (∀ t ∈ turns, ∀ info, t.2 ≠ .ok (.info info)) →
      (heartbeats L turns).filter (fun x => alive x.uuid) = L.filter (fun x => alive x.uuid) ∧
        ((heartbeats L turns).filter fun x => !alive x.uuid).length =
          (L.filter fun x => !alive x.uuid).length - turns.length
  | L, [], _, _ => ⟨rfl, rfl⟩
  | L, (R, p) :: turns, hR, hp => by
    obtain ⟨h₁, h₂⟩ := heartbeat_silent alive (hR _ (.head _)) (hp _ (.head _))
    obtain ⟨ih₁, ih₂⟩ := heartbeats_silent (heartbeat L R p) turns (fun t ht => hR t (.tail _ ht))
      (fun t ht => hp t (.tail _ ht))
    rw [heartbeats, ih₁, h₁, ih₂, h₂, List.length_cons, Nat.sub_sub, Nat.add_comm 1]
    exact ⟨rfl, rfl⟩

/-- The heartbeat loop clears the silent instances: over turns in which the `Pong`s name exactly
the live uuids and no `Type` query returns `Info`, each turn keeps the live records in their order
and drops one silent record while there is one, so that once there have been as many turns as
silent records the living list holds exactly the live records, in their order. -/
theorem heartbeat_loop_clears_silent (L : List Instance)
    (turns : List (List Response × Except String Response))
    (hR : ∀ t ∈ turns, ∀ u, Answered t.1 u ↔ alive u = true)
    (hp : ∀ t ∈ turns, ∀ info, t.2 ≠ .ok (.info info)) :
    (∀ k ≤ turns.length,
      (heartbeats L (turns.take k)).filter (fun x => alive x.uuid) =
        L.filter (fun x => alive x.uuid) ∧
      ((heartbeats L (turns.take k)).filter fun x => !alive x.uuid).length =
        (L.filter fun x => !alive x.uuid).length - k) ∧
    ((L.filter fun x => !alive x.uuid).length ≤ turns.length →
      heartbeats L turns = L.filter fun x => alive x.uuid) := by
  refine ⟨fun k hk => ?_, fun hk => ?_⟩
  · have h := heartbeats_silent alive L (turns.take k) (fun t ht => hR t (List.mem_of_mem_take ht))
      (fun t ht => hp t (List.mem_of_mem_take ht))
    rwa [List.length_take, min_eq_left hk] at h
  · obtain ⟨h₁, h₂⟩ := heartbeats_silent alive L turns hR hp
    have hnil : (heartbeats L turns).filter (fun x => !alive x.uuid) = [] :=
      List.length_eq_zero.1 (by omega)
    rw [← h₁]
    refine (List.filter_eq_self.2 fun x hx => ?_).symm
    simpa using List.filter_eq_nil_iff.1 hnil x hx

theorem answered_pong_iff {v : Uuid} : Answered [.pong [v.hyphenated]] u ↔ u = v := by
  constructor
  · rintro ⟨a, rest, hm, rfl⟩
    simp only [List.mem_singleton, Response.pong.injEq, List.cons.injEq] at hm
    exact Uuid.hyphenated_inj hm.1
  · rintro rfl
    exact ⟨_, _, List.mem_singleton_self _, rfl⟩

/-- Three instances, of which only the second answers the heartbeat's `Ping`. -/
def threeInstances : List Instance := [⟨"A", Uuid.ofByte 1⟩, ⟨"B", Uuid.ofByte 2⟩, ⟨"C", Uuid.ofByte 3⟩]

/-- Two turns in which only the second instance answers; the `Type` query times out, then
answers `Ok`. -/
def secondAnswers : List (List Response × Except String Response) :=
  [([.pong [(Uuid.ofByte 2).hyphenated]], .error "timeout"),
    ([.pong [(Uuid.ofByte 2).hyphenated]], .ok .ok)]

/-- Of three instances only the second answers: each of the two turns drops one of the others,
and then the second is left alone. -/
theorem heartbeat_loop_clears_two_silent :
    (∀ k ≤ secondAnswers.length,
      (heartbeats threeInstances (secondAnswers.take k)).filter
          (fun x => decide (x.uuid = Uuid.ofByte 2)) =
        threeInstances.filter (fun x => decide (x.uuid = Uuid.ofByte 2)) ∧
      ((heartbeats threeInstances (secondAnswers.take k)).filter
          fun x => !decide (x.uuid = Uuid.ofByte 2)).length =
        (threeInstances.filter fun x => !decide (x.uuid = Uuid.ofByte 2)).length - k) ∧
    heartbeats threeInstances secondAnswers =
      threeInstances.filter fun x => decide (x.uuid = Uuid.ofByte 2) :=
  have h := heartbeat_loop_clears_silent (fun u => decide (u = Uuid.ofByte 2)) _ _
    (fun t ht u => by
      simp only [secondAnswers, List.mem_cons, List.not_mem_nil, or_false] at ht
      rcases ht with rfl | rfl <;> simpa using answered_pong_iff)
    (fun t ht info => by
      simp only [secondAnswers, List.mem_cons, List.not_mem_nil, or_false] at ht
      rcases ht with rfl | rfl <;> simp)
  ⟨h.1, h.2 (by decide)⟩

example : threeInstances.filter (fun x => decide (x.uuid = Uuid.ofByte 2)) =
    [⟨"B", Uuid.ofByte 2⟩] := by
  decide

end Silent

end TickGrinder.InstanceManager
