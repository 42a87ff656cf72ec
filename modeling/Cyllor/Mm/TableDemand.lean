import Cyllor.Mm.PageView

/-!
Contract: how many frames the tables for a page take.

Owns:
- `tableTrails`, the places of the tables on the way to a page, and `lacking`, how many of
  some places have no table;
- that `map_page` returns, with an error exactly when fewer frames are free than tables are
  lacking, and then takes all frames that are left.
-/

namespace Cyllor.Mm

open Cyllor.Arch LinkForest
open Call hiding pure bind

variable {trail indices : List Index}

/-- The places of the tables along some indices, from the table at `trail` on. -/
def trailsFrom (trail : List Index) : List Index → List (List Index)
  | [] => []
  | index :: indices => (trail ++ [index]) :: trailsFrom (trail ++ [index]) indices

/-- The places of the tables on the way to a page, below the root. -/
def tableTrails (virt : Nat) : List (List Index) := trailsFrom [] (tableIndices virt)

/-- How many of the places have no table. -/
def lacking (ram : Ram) (base : Nat) (trails : List (List Index)) : Nat :=
  trails.countP fun trail => (walk (link ram) base trail).isNone

/-- There are tables where there were some, and at the places of a list. -/
def TablesAdded (base : Nat) (trails : List (List Index)) (ram ram' : Ram) : Prop :=
  ∀ trail : List Index, trail.length ≤ 3 →
    ((walk (link ram') base trail).isSome ↔
      (walk (link ram) base trail).isSome ∨ trail ∈ trails)

variable {heap roots : Set Nat} {place : Place} {ram ram' ram'' : Ram} {base : Nat} {ε : Type}

theorem SameTables.refl (roots : Set Nat) (ram : Ram) : SameTables roots ram ram :=
  fun _ _ _ _ => rfl

theorem SameTables.trans (first : SameTables roots ram ram')
    (second : SameTables roots ram' ram'') : SameTables roots ram ram'' :=
  fun root member trail short => (second root member trail short).trans (first root member trail
    short)

theorem SameTables.of_bytes (same : ram'.bytes = ram.bytes) : SameTables roots ram ram' := by
  have links : link ram' = link ram := by
    funext table index
    rw [link, link, readEntry, readEntry, same]
  intro root _ trail _
  rw [links]

theorem SameTables.isTable_iff (same : SameTables roots ram ram') {frame : Nat} :
    IsTable roots ram' frame ↔ IsTable roots ram frame := by
  refine exists_congr fun root => and_congr_right fun member => exists_congr fun trail =>
    and_congr_right fun short => ?_
  rw [same root member trail (by omega)]

theorem Owned.sameTables_write (owned : Owned heap roots ram) {frame : Nat}
    (noTable : ¬ IsTable roots ram frame) {bytes : ByteMemory}
    (same : ∀ addr, PAGE_SIZE * (addr / PAGE_SIZE) ≠ frame → bytes addr = ram.bytes addr) :
    SameTables roots ram { ram with bytes := bytes } := by
  obtain ⟨place, tables, minimal⟩ := owned.places
  intro root member trail short
  exact tables.walk_of_bytes (fun addr isPlaced => same addr fun isFrame =>
    noTable (isFrame ▸ minimal _ isPlaced)) member (by omega)

/-! ### Places -/

theorem length_of_mem_trailsFrom {place : List Index} (member : place ∈ trailsFrom trail indices) :
    trail.length < place.length ∧ place.length ≤ trail.length + indices.length := by
  induction indices generalizing trail with
  | nil => cases member
  | cons index indices ih =>
    rcases List.mem_cons.mp member with rfl | deeper
    · simp
    · have bounds := ih deeper
      simp only [List.length_append, List.length_cons, List.length_nil] at bounds ⊢
      omega

theorem nodup_trailsFrom (trail indices : List Index) : (trailsFrom trail indices).Nodup := by
  induction indices generalizing trail with
  | nil => exact List.nodup_nil
  | cons index indices ih =>
    refine List.nodup_cons.mpr ⟨fun member => ?_, ih _⟩
    exact absurd (length_of_mem_trailsFrom member).1 (lt_irrefl _)

theorem lacking_congr {trails : List (List Index)}
    (same : ∀ trail ∈ trails, (walk (link ram') base trail).isSome =
      (walk (link ram) base trail).isSome) :
    lacking ram' base trails = lacking ram base trails := by
  refine List.countP_congr fun trail member => ?_
  rw [← Option.not_isSome, ← Option.not_isSome, same trail member]

theorem SameTables.lacking_eq (same : SameTables roots ram ram') (based : base ∈ roots)
    {trails : List (List Index)} (short : ∀ trail ∈ trails, trail.length ≤ 3) :
    lacking ram' base trails = lacking ram base trails :=
  lacking_congr fun trail member => by rw [same base based trail (short trail member)]

theorem length_of_mem_tableTrails {virt : Nat} (member : trail ∈ tableTrails virt) :
    trail.length ≤ 3 :=
  (length_of_mem_trailsFrom member).2

/-! ### Frames for tables -/

/-- What a walk that makes tables takes: a frame for each that is lacking, or all that are
left when these are too few. -/
theorem demand_of_walkCreated {table : Nat} {result : Except Unit Nat}
    (created : WalkCreated base table indices ram result ram') (tables : Tables ram roots place)
    (based : base ∈ roots) (counted : ram.pmm.Counted) (depth : trail.length + indices.length = 3)
    (located : walk (link ram) base trail = some table) :
    ram'.pmm.Counted ∧
      ((∃ lowest, result = .ok lowest ∧
          ram'.pmm.clearPages.card + lacking ram base (trailsFrom trail indices) =
            ram.pmm.clearPages.card ∧ TablesAdded base (trailsFrom trail indices) ram ram') ∨
        (result = .error () ∧
          ram.pmm.clearPages.card < lacking ram base (trailsFrom trail indices) ∧
          ram'.pmm.clearPages.card = 0)) := by
  induction created generalizing place trail with
  | done =>
    refine ⟨counted, .inl ⟨_, rfl, Nat.add_zero _, fun _ _ => ?_⟩⟩
    simp [trailsFrom]
  | @found table next index indices ram ram' result isLink rest ih =>
    have here : walk (link ram) base (trail ++ [index]) = some next := by
      rw [walk_concat, located, Option.bind_some, isLink]
    have same : lacking ram base (trailsFrom trail (index :: indices)) =
        lacking ram base (trailsFrom (trail ++ [index]) indices) := by
      rw [lacking, trailsFrom, List.countP_cons_of_neg (by rw [here]; simp), lacking]
    rw [same]
    obtain ⟨stays, ⟨lowest, isOk, card, added⟩ | short⟩ :=
      ih tables counted (by simp at depth ⊢; omega) here
    · refine ⟨stays, .inl ⟨lowest, isOk, card, fun path length => ?_⟩⟩
      rw [added path length, trailsFrom, List.mem_cons]
      refine ⟨Or.imp_right .inr, ?_⟩
      rintro (isTable | rfl | inRest)
      · exact .inl isTable
      · exact .inl (by rw [here]; rfl)
      · exact .inr inRest
    · exact ⟨stays, .inr short⟩
  | @short table index indices ram absent full =>
    have empty := BitmapAllocator.card_of_full full
    refine ⟨counted, .inr ⟨rfl, ?_, empty⟩⟩
    rw [empty, lacking, trailsFrom, List.countP_cons_of_pos]
    · exact Nat.succ_pos _
    · rw [walk_concat, located, Option.bind_some, absent]
      rfl
  | @made table fresh index indices ram ram' pmm result absent free frees counter rest ih =>
    have here : walk (link ram) base (trail ++ [index]) = none := by
      rw [walk_concat, located, Option.bind_some, absent]
    have first : lacking ram base (trailsFrom trail (index :: indices)) =
        lacking ram base (trailsFrom (trail ++ [index]) indices) + 1 := by
      rw [lacking, trailsFrom, List.countP_cons_of_pos (by rw [here]; rfl), lacking]
    have taken : pmm.Counted := counted.take free counter frees
    have card : pmm.clearPages.card + 1 = ram.pmm.clearPages.card := by
      rw [← counted, ← taken]
      exact counter
    have inner : trail.length < 3 := by
      simp at depth
      omega
    obtain ⟨tables', -, -, reached⟩ := tables.grow based inner located absent free frees rfl rfl
    have others : ∀ path : List Index, path.length ≤ 3 → path ≠ trail ++ [index] →
        walk (link (hung ram table index fresh pmm)) base path = walk (link ram) base path :=
      fun path length different => tables.walk_hung based inner located absent free pmm based
        (by omega) fun isPath => different isPath.2
    have rest : lacking (hung ram table index fresh pmm) base
        (trailsFrom (trail ++ [index]) indices) =
        lacking ram base (trailsFrom (trail ++ [index]) indices) := by
      refine lacking_congr fun path member => ?_
      have bounds := length_of_mem_trailsFrom member
      rw [others path (by simp at depth bounds; omega)]
      rintro rfl
      exact absurd bounds.1 (lt_irrefl _)
    obtain ⟨stays, outcome⟩ := ih tables' taken (by simp at depth ⊢; omega) reached
    rw [rest] at outcome
    rw [first]
    refine ⟨stays, ?_⟩
    rcases outcome with ⟨lowest, isOk, left, added⟩ | ⟨isError, short, empty⟩
    · have left : ram'.pmm.clearPages.card +
          lacking ram base (trailsFrom (trail ++ [index]) indices) = pmm.clearPages.card := left
      refine .inl ⟨lowest, isOk, by omega, fun path length => ?_⟩
      rw [added path length, trailsFrom, List.mem_cons]
      by_cases isNew : path = trail ++ [index]
      · subst isNew
        rw [reached]
        simp
      · rw [others path length isNew]
        simp [isNew]
    · have short : pmm.clearPages.card <
          lacking ram base (trailsFrom (trail ++ [index]) indices) := short
      exact .inr ⟨isError, by omega, empty⟩

/-- Tables stay where they are, and frames that are not free any more are tables. -/
def TablesGrow (roots : Set Nat) (ram ram' : Ram) : Prop :=
  (∀ root ∈ roots, ∀ trail : List Index, trail.length ≤ 3 → ∀ node,
      walk (link ram) root trail = some node → walk (link ram') root trail = some node) ∧
    ∀ frame, ram.pmm.IsFree frame → ram'.pmm.IsFree frame ∨ IsTable roots ram' frame

theorem TablesGrow.isTable (grow : TablesGrow roots ram ram') {frame : Nat}
    (isTable : IsTable roots ram frame) : IsTable roots ram' frame := by
  obtain ⟨root, member, trail, short, walked⟩ := isTable
  exact ⟨root, member, trail, short, grow.1 root member trail (by omega) frame walked⟩

theorem TablesGrow.trans (first : TablesGrow roots ram ram') (second :
    TablesGrow roots ram' ram'') :
    TablesGrow roots ram ram'' := by
  refine ⟨fun root member trail short node walked =>
    second.1 root member trail short node (first.1 root member trail short node walked), ?_⟩
  intro frame free
  rcases first.2 frame free with still | isTable
  · exact second.2 frame still
  · exact .inr (second.isTable isTable)

theorem SameTables.grow (same : SameTables roots ram ram')
    (frees : ∀ frame, ram.pmm.IsFree frame → ram'.pmm.IsFree frame) : TablesGrow roots ram ram' :=
  ⟨fun root member trail short node walked => by rw [same root member trail short, walked],
    fun frame free => .inl (frees frame free)⟩

theorem tablesGrow_of_walkCreated {table : Nat} {result : Except Unit Nat}
    (created : WalkCreated base table indices ram result ram') (tables : Tables ram roots place)
    (based : base ∈ roots) (depth : trail.length + indices.length = 3)
    (located : walk (link ram) base trail = some table) : TablesGrow roots ram ram' := by
  induction created generalizing place trail with
  | done => exact (SameTables.refl roots _).grow fun _ => id
  | @found _ _ index _ _ _ _ isLink _ ih =>
    refine ih tables (show (trail ++ [index]).length + _ = 3 by simp at depth ⊢; omega) ?_
    rw [walk_concat, located, Option.bind_some, isLink]
  | short => exact (SameTables.refl roots _).grow fun _ => id
  | @made table fresh index indices ram ram' pmm _ absent free frees _ _ ih =>
    have inner : trail.length < 3 := by
      simp at depth
      omega
    obtain ⟨tables', -, -, reached⟩ := tables.grow based inner located absent free frees rfl rfl
    refine TablesGrow.trans ⟨?_, fun frame isFree => ?_⟩
      (ih tables' (by simp at depth ⊢; omega) reached)
    · intro root member path short node walked
      rw [tables.walk_hung based inner located absent free pmm member (by omega)]
      · exact walked
      · rintro ⟨rfl, rfl⟩
        rw [walk_concat, located, Option.bind_some, absent] at walked
        cases walked
    · by_cases isNew : frame = fresh
      · refine .inr ⟨base, based, trail ++ [index], ?_, by rw [isNew]; exact reached⟩
        rw [List.length_append, List.length_singleton]
        omega
      · exact .inl ((frees frame).mpr ⟨isFree, isNew⟩)

theorem ends_mapPage (tables : Tables ram roots place) (based : base ∈ roots)
    (counted : ram.pmm.Counted) (virt phys : Nat) (attr : PageAttr) :
    ends (mapPage base virt phys attr) (fun result ram' => TablesGrow roots ram ram' ∧
      ((result = .ok () ∧
          ram'.pmm.clearPages.card + lacking ram base (tableTrails virt) =
            ram.pmm.clearPages.card ∧ TablesAdded base (tableTrails virt) ram ram') ∨
        (result = .error () ∧
          ram.pmm.clearPages.card < lacking ram base (tableTrails virt) ∧
          ram'.pmm.clearPages.card = 0))) ram := by
  have used : ¬ ram.pmm.IsFree base := tables.used base (by rw [tables.place_root based]; rfl)
  refine ends_bind (ends_mono (ends_walkCreated (tableIndices virt) base used counted) ?_)
  intro result middle created
  have depth : ([] : List Index).length + 3 = 3 := rfl
  have grow : TablesGrow roots ram middle :=
    tablesGrow_of_walkCreated created tables based depth rfl
  obtain ⟨⟨place', tables', -, -, walked⟩, -⟩ := created.walked tables based depth rfl
  obtain ⟨-, ⟨lowest, rfl, card, added⟩ | ⟨rfl, short, empty⟩⟩ :=
    demand_of_walkCreated created tables based counted depth rfl
  · have same : SameTables roots middle _ := (tables'.set based walked (pageEntry phys attr) rfl).1
    refine ⟨_, _, rfl, grow.trans (same.grow fun _ => id), .inl ⟨rfl, card, ?_⟩⟩
    intro trail length
    rw [same base based trail length]
    exact added trail length
  · exact ⟨grow, .inr ⟨rfl, short, empty⟩⟩

end Cyllor.Mm
