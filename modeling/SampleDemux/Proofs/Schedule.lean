import SampleDemux.Lane.Pipeline
import Mathlib.Algebra.Order.Ring.Nat
import Mathlib.Tactic.Ring

/-!
# The schedule of a lane

The cycles of a lane are numbered from 0. Which block has which cycle is said in closed form: one
round lists every block as often as its limit says, rounds follow each other, and a block without a
limit takes all cycles that no block before it has. A lane keeps only the place of a block and the
number of its cycles; together they tell how far the schedule has come. What a cycle reads is left
to others.
-/

namespace SampleDemux

namespace CycleLimit

/-- Whether a block is left after some cycles. -/
def isLimited : CycleLimit → Bool
  | untilEnd => false
  | count _ => true

/-- Cycles of a limited block in one round. -/
def perRound : CycleLimit → ℕ
  | untilEnd => 0
  | count cycles => cycles

/-- A declared number of cycles is no limit of zero cycles. -/
theorem ofCycles_ne_count_zero (cycles : ℕ) : ofCycles cycles ≠ count 0 := by
  unfold ofCycles
  split
  · exact nofun
  · rename_i hcycles
    intro h
    injection h with h
    exact hcycles h

end CycleLimit

/-- The places of the blocks in one round, as often as their limits say, up to the first block
without a limit. The first block has the given place. -/
def roundFrom (place : ℕ) : List CycleLimit → List ℕ
  | [] => []
  | .untilEnd :: _ => []
  | .count cycles :: rest => List.replicate cycles place ++ roundFrom (place + 1) rest

/-- The place of the block that has a cycle: the first block without a limit has all cycles behind
the first round, and without such a block the rounds start over. -/
def schedule (limits : List CycleLimit) (cycle : ℕ) : ℕ :=
  match limits.findIdx? (!·.isLimited) with
  | some endless => (roundFrom 0 limits).getD cycle endless
  | none => (roundFrom 0 limits).getD (cycle % (roundFrom 0 limits).length) 0

/-- Cycles of limited blocks in one round. -/
def roundCycles (limits : List CycleLimit) : ℕ := (limits.map (·.perRound)).sum

/-- Cycles of blocks side by side. -/
theorem roundCycles_append (front back : List CycleLimit) :
    roundCycles (front ++ back) = roundCycles front + roundCycles back := by
  simp only [roundCycles, List.map_append, List.sum_append]

/-- A round over limited blocks has all their cycles. -/
theorem length_roundFrom {limits : List CycleLimit}
    (h : ∀ limit ∈ limits, limit.isLimited = true) (place : ℕ) :
    (roundFrom place limits).length = roundCycles limits := by
  induction limits generalizing place with
  | nil => rfl
  | cons limit limits ih =>
    rcases List.forall_mem_cons.mp h with ⟨hlimit, hrest⟩
    cases limit with
    | untilEnd => cases hlimit
    | count cycles =>
      rw [roundFrom, List.length_append, List.length_replicate, ih hrest]
      rfl

/-- A round ends before a block without a limit. -/
theorem roundFrom_of_untilEnd {limits : List CycleLimit} {index : ℕ}
    (hindex : limits[index]? = some .untilEnd) (place : ℕ) :
    roundFrom place limits = roundFrom place (limits.take index) := by
  induction limits generalizing index place with
  | nil => cases hindex
  | cons limit limits ih =>
    cases index with
    | zero =>
      rw [List.getElem?_cons_zero, Option.some_inj] at hindex
      rw [hindex]
      rfl
    | succ index =>
      rw [List.getElem?_cons_succ] at hindex
      rw [List.take_succ_cons]
      cases limit with
      | untilEnd => rfl
      | count cycles => rw [roundFrom, roundFrom, ih hindex]

/-- In a round, the cycles of a block follow those of all blocks before it. -/
theorem getElem?_roundFrom {limits : List CycleLimit} {index cycles done : ℕ}
    (hbefore : ∀ limit ∈ limits.take index, limit.isLimited = true)
    (hindex : limits[index]? = some (.count cycles)) (hdone : done < cycles) (place : ℕ) :
    (roundFrom place limits)[roundCycles (limits.take index) + done]? = some (place + index) := by
  induction limits generalizing index place with
  | nil => cases hindex
  | cons limit limits ih =>
    cases index with
    | zero =>
      rw [List.getElem?_cons_zero, Option.some_inj] at hindex
      have hfirst : (roundCycles ((limit :: limits).take 0) + done) = done := Nat.zero_add _
      rw [hindex, roundFrom, ← hindex, hfirst,
        List.getElem?_append_left (by rwa [List.length_replicate]), List.getElem?_replicate,
        if_pos hdone]
      rfl
    | succ index =>
      rw [List.getElem?_cons_succ] at hindex
      rw [List.take_succ_cons] at hbefore ⊢
      rcases List.forall_mem_cons.mp hbefore with ⟨hlimit, hrest⟩
      cases limit with
      | untilEnd => cases hlimit
      | count first =>
        have hplace : roundCycles (.count first :: limits.take index) + done =
            first + (roundCycles (limits.take index) + done) := by
          simp only [roundCycles, List.map_cons, List.sum_cons, CycleLimit.perRound]
          omega
        rw [hplace, roundFrom, List.getElem?_append_right (by simp), List.length_replicate,
          Nat.add_sub_cancel_left, ih hrest hindex]
        congr 1
        omega

/-- A lane is at a block, some cycles of which are done, after all cycles before it: some whole
rounds, the blocks before this one in its round, and those done. -/
structure Progress (limits : List CycleLimit) (cycle index done : ℕ) : Prop where
  /-- There is such a block. -/
  index_lt : index < limits.length
  /-- All blocks before it are limited. -/
  before : ∀ limit ∈ limits.take index, limit.isLimited = true
  /-- It has no more cycles than its limit says. -/
  done_le : ∀ cycles, limits[index]? = some (.count cycles) → done ≤ cycles
  /-- Rounds are only started over if all blocks are limited. -/
  rounds : ∃ rounds, cycle = rounds * roundCycles limits + roundCycles (limits.take index) + done ∧
    (rounds = 0 ∨ ∀ limit ∈ limits, limit.isLimited = true)

/-- The block of a lane has a cycle left. -/
def Due (limits : List CycleLimit) (index done : ℕ) : Prop :=
  ∀ cycles, limits[index]? = some (.count cycles) → done < cycles

/-- The block whose turn it is, and the cycles of it that are done. -/
def turnOf (limits : List CycleLimit) (index done : ℕ) : ℕ × ℕ :=
  match limits[index]? with
  | none => (index, done)
  | some limit =>
    if limit.isExhausted done then ((index + 1) % limits.length, 0) else (index, done)

/-- The turn stays with a block that has a cycle left. -/
theorem turnOf_of_due {limits : List CycleLimit} {index done : ℕ} (h : Due limits index done) :
    turnOf limits index done = (index, done) := by
  unfold turnOf
  cases hlimit : limits[index]? with
  | none => rfl
  | some limit =>
    cases limit with
    | untilEnd => rfl
    | count cycles =>
      have hleft := h cycles hlimit
      simp only [CycleLimit.isExhausted, Nat.not_le.mpr hleft, decide_false, Bool.false_eq_true,
        if_false]

namespace Progress

variable {limits : List CycleLimit} {cycle index done : ℕ}

/-- A lane begins with its first block. -/
theorem start (h : limits ≠ []) : Progress limits 0 0 0 where
  index_lt := List.length_pos_iff.mpr h
  before := by simp
  done_le := fun _ _ => Nat.zero_le _
  rounds := ⟨0, by simp [roundCycles], .inl rfl⟩

/-- A cycle of the block that has one left is counted. -/
theorem next (h : Progress limits cycle index done) (hdue : Due limits index done) :
    Progress limits (cycle + 1) index (done + 1) where
  index_lt := h.index_lt
  before := h.before
  done_le := hdue
  rounds := by
    rcases h.rounds with ⟨rounds, hcycle, hlimited⟩
    exact ⟨rounds, by omega, hlimited⟩

/-- There is a block. -/
theorem exists_limit (h : Progress limits cycle index done) :
    ∃ limit, limits[index]? = some limit := ⟨_, List.getElem?_eq_getElem h.index_lt⟩

/-- Behind the last cycle of a block the next one begins, and behind the last block a new round. -/
theorem nextBlock {cycles : ℕ} (h : Progress limits cycle index cycles)
    (hget : limits[index]? = some (.count cycles)) :
    Progress limits cycle ((index + 1) % limits.length) 0 := by
  rcases h.rounds with ⟨rounds, hcycle, hlimited⟩
  have htake : limits.take (index + 1) = limits.take index ++ [.count cycles] := by
    rw [List.take_add_one, hget]
    rfl
  have hsum : roundCycles (limits.take (index + 1)) =
      roundCycles (limits.take index) + cycles := by
    rw [htake, roundCycles_append]
    rfl
  have hbefore : ∀ limit ∈ limits.take (index + 1), limit.isLimited = true := by
    rw [htake]
    exact List.forall_mem_append.mpr ⟨h.before, by simp [CycleLimit.isLimited]⟩
  by_cases hlast : index + 1 < limits.length
  · rw [Nat.mod_eq_of_lt hlast]
    exact
      { index_lt := hlast
        before := hbefore
        done_le := fun _ _ => Nat.zero_le _
        rounds := ⟨rounds, by rw [hsum, hcycle]; omega, hlimited⟩ }
  · have hindex := h.index_lt
    have hlength : index + 1 = limits.length := by omega
    rw [hlength, List.take_length] at hsum hbefore
    have hround : cycle = (rounds + 1) * roundCycles limits := by
      rw [Nat.succ_mul, hcycle, hsum, Nat.add_assoc]
    rw [hlength, Nat.mod_self]
    exact
      { index_lt := by omega
        before := by simp
        done_le := fun _ _ => Nat.zero_le _
        rounds := ⟨rounds + 1, by simpa [roundCycles] using hround, .inr hbefore⟩ }

/-- The block whose turn it is has a cycle left. -/
theorem turn (h : Progress limits cycle index done)
    (hpositive : ∀ limit ∈ limits, limit ≠ .count 0) :
    Progress limits cycle (turnOf limits index done).1 (turnOf limits index done).2 ∧
      Due limits (turnOf limits index done).1 (turnOf limits index done).2 := by
  rcases h.exists_limit with ⟨limit, hget⟩
  simp only [turnOf, hget]
  cases limit with
  | untilEnd =>
    refine ⟨h, fun cycles hcycles => ?_⟩
    rw [CycleLimit.isExhausted, if_neg Bool.false_ne_true, hget] at hcycles
    cases hcycles
  | count cycles =>
    simp only [CycleLimit.isExhausted, decide_eq_true_eq]
    by_cases hexhausted : cycles ≤ done
    · obtain rfl : done = cycles := le_antisymm (h.done_le cycles hget) hexhausted
      rw [if_pos le_rfl]
      refine ⟨h.nextBlock hget, fun others hothers => Nat.pos_of_ne_zero ?_⟩
      rintro rfl
      exact hpositive _ (List.mem_of_getElem? hothers) rfl
    · rw [if_neg hexhausted]
      refine ⟨h, fun others hothers => ?_⟩
      rw [hget] at hothers
      cases hothers
      omega

/-- A block without a limit is the first one. -/
theorem findIdx?_endless (h : Progress limits cycle index done)
    (hget : limits[index]? = some .untilEnd) :
    limits.findIdx? (!·.isLimited) = some index := by
  rcases List.getElem?_eq_some_iff.mp hget with ⟨hindex, hlimit⟩
  rw [List.findIdx?_eq_some_iff_getElem]
  refine ⟨hindex, by rw [hlimit]; rfl, fun place hplace => ?_⟩
  have hlimited : (limits[place]).isLimited = true :=
    h.before _ (List.mem_take_iff_getElem.mpr ⟨place, by omega, rfl⟩)
  rw [hlimited]
  exact Bool.false_ne_true

/-- With a block without a limit no round was started over. -/
theorem cycle_eq_of_endless (h : Progress limits cycle index done) {place : ℕ}
    (hplace : limits.findIdx? (!·.isLimited) = some place) :
    cycle = roundCycles (limits.take index) + done := by
  rcases h.rounds with ⟨rounds, hcycle, hlimited⟩
  rcases List.findIdx?_eq_some_iff_getElem.mp hplace with ⟨hbound, hfound, -⟩
  have hrounds : rounds = 0 := hlimited.resolve_right fun hall => by
    rw [hall _ (List.getElem_mem hbound)] at hfound
    cases hfound
  rw [hcycle, hrounds, Nat.zero_mul, Nat.zero_add]

/-- The block with a cycle left is the one that the schedule names. -/
theorem schedule_eq (h : Progress limits cycle index done) (hdue : Due limits index done) :
    schedule limits cycle = index := by
  rcases h.exists_limit with ⟨limit, hget⟩
  unfold schedule
  cases limit with
  | untilEnd =>
    have hendless := h.findIdx?_endless hget
    have hlength : (roundFrom 0 limits).length ≤ cycle := by
      rw [roundFrom_of_untilEnd hget, length_roundFrom h.before, h.cycle_eq_of_endless hendless]
      exact Nat.le_add_right _ _
    simp only [hendless]
    rw [List.getD_eq_getElem?_getD, List.getElem?_eq_none hlength]
    rfl
  | count cycles =>
    have hplace := getElem?_roundFrom h.before hget (hdue _ hget) 0
    rw [Nat.zero_add] at hplace
    cases hendless : limits.findIdx? (!·.isLimited) with
    | some endless =>
      simp only
      rw [h.cycle_eq_of_endless hendless, List.getD_eq_getElem?_getD, hplace]
      rfl
    | none =>
      rcases h.rounds with ⟨rounds, hcycle, -⟩
      have hall : ∀ limit ∈ limits, limit.isLimited = true := by
        simpa using List.findIdx?_eq_none_iff.mp hendless
      have hbound := (List.getElem?_eq_some_iff.mp hplace).1
      rw [length_roundFrom hall] at hbound
      simp only
      rw [length_roundFrom hall, hcycle, Nat.add_assoc, Nat.mul_add_mod_self_right,
        Nat.mod_eq_of_lt hbound, List.getD_eq_getElem?_getD, hplace]
      rfl

/-- After any number of cycles a lane is at a block with a cycle left. -/
theorem exists_due (hlimits : limits ≠ []) (hpositive : ∀ limit ∈ limits, limit ≠ .count 0)
    (cycle : ℕ) :
    ∃ index done, Progress limits cycle index done ∧ Due limits index done := by
  induction cycle with
  | zero => exact ⟨_, _, (start hlimits).turn hpositive⟩
  | succ cycle ih =>
    rcases ih with ⟨index, done, hprogress, hdue⟩
    exact ⟨_, _, (hprogress.next hdue).turn hpositive⟩

/-- The schedule names a block. -/
theorem schedule_lt (hlimits : limits ≠ []) (hpositive : ∀ limit ∈ limits, limit ≠ .count 0)
    (cycle : ℕ) : schedule limits cycle < limits.length := by
  rcases exists_due hlimits hpositive cycle with ⟨index, done, hprogress, hdue⟩
  rw [hprogress.schedule_eq hdue]
  exact hprogress.index_lt

end Progress

/-- Two blocks of two cycles and of one. -/
example : (List.range 7).map (schedule [.count 2, .count 1]) = [0, 0, 1, 0, 0, 1, 0] := by decide

/-- A block without a limit keeps the lane. -/
example : (List.range 5).map (schedule [.count 2, .untilEnd, .count 3]) = [0, 0, 1, 1, 1] := by
  decide

namespace Lane

/-- The limits of a lane's blocks. -/
def limits (lane : Lane) : List CycleLimit := lane.blocks.map (·.cycles)

/-- Taking turns changes nothing but the block and the cycles of it that are done. -/
theorem turn_eq (lane : Lane) :
    lane.turn =
      { lane with
        blockIndex := (turnOf lane.limits lane.blockIndex lane.blockCycles).1
        blockCycles := (turnOf lane.limits lane.blockIndex lane.blockCycles).2 } := by
  unfold turn turnOf limits
  rw [List.getElem?_map, List.length_map]
  cases lane.blocks[lane.blockIndex]? with
  | none => rfl
  | some block =>
    simp only [Option.map_some]
    cases block.cycles.isExhausted lane.blockCycles <;> rfl

end Lane

end SampleDemux
