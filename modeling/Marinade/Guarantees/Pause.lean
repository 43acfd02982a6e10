import Marinade.Guarantees.Powers

/-!
# While the program is paused

A pause is for emergencies: until it is over, nothing of the pool may move. All instructions that
touch the books refuse to run, so what is left are the ones that configure, and what happens without
the program. The pool keeps its books, its price, its tickets and its stake accounts, and its own
accounts only grow.
-/

open Foundation Foundation.Ledger

namespace Marinade

/-- A step that ends a pause. -/
def Label.resumes : Label → Bool
  | .instruction (.resume _) _ => true
  | _ => false

/-- The stake account at `k` is what it was, and has what it had. Only the network may have changed
its delegation, in a step that says so; even then all but the amount stays, unless the account of a
delinquent validator was deactivated. -/
structure World.LeftAlone (w : World) (ls : List Label) (w' : World) (k : Pubkey) : Prop where
  follows : ∀ account, w.stakes k = some account →
    ∃ account', w'.stakes k = some account' ∧ account.Follows account'
  unchanged : w'.stakes k = w.stakes k ∧ w.lamportsOf k ≤ w'.lamportsOf k ∨
    ∃ x, Label.external x ∈ ls ∧ x.redelegates = some k

/-- Nothing of the pool has moved from `w` to `w'`, in steps labelled `ls`. -/
structure World.Frozen (w : World) (ls : List Label) (w' : World) : Prop where
  paused_eq : w'.state.paused = w.state.paused
  books : w.state.SameBooks w'.state
  price_eq : w'.state.msolPrice = w.state.msolPrice
  moves : w.state.SameMoves w'.state
  flags_eq : w'.flags = w.flags
  tickets_iff : ∀ k ticket, w'.OwnTicket k ticket ↔ w.OwnTicket k ticket
  managed : ∀ k, w.Managed k → w.LeftAlone ls w' k
  /-- The addresses of the program that are not for stake: the reserve, the SOL leg and the others.
  Resizing a list settles the rent of its account, though. -/
  lamports_le : ∀ k, k.canSign = false → k.holdsStake = false → k ≠ .stakeList →
    k ≠ .validatorList → w.lamportsOf k ≤ w'.lamportsOf k
  msol_leg_le : w.msol.amount .msolLeg ≤ w'.msol.amount .msolLeg
  msol_supply_le : w'.msol.supply ≤ w.msol.supply
  lp_supply_le : w'.lp.supply ≤ w.lp.supply

section

variable {rt : Runtime} {w w₀ w₁ w₂ w' : World} {i : Instruction} {e : Event} {l : Label}
  {ls : List Label} {x : External} {k : Pubkey}

theorem State.SameBooks.trans {s₀ s₁ s₂ : State} (h : s₀.SameBooks s₁) (h' : s₁.SameBooks s₂) :
    s₀.SameBooks s₂ where
  records_eq := h'.records_eq.trans h.records_eq
  delayed_eq := h'.delayed_eq.trans h.delayed_eq
  emergency_eq := h'.emergency_eq.trans h.emergency_eq
  validators_eq := h'.validators_eq.trans h.validators_eq
  total_eq := h'.total_eq.trans h.total_eq
  upgrader_eq := h'.upgrader_eq.trans h.upgrader_eq
  available_eq := h'.available_eq.trans h.available_eq
  supply_eq := h'.supply_eq.trans h.supply_eq
  lp_supply_eq := h'.lp_supply_eq.trans h.lp_supply_eq
  tickets_eq := h'.tickets_eq.trans h.tickets_eq
  ticket_count_eq := h'.ticket_count_eq.trans h.ticket_count_eq
  rent_eq := h'.rent_eq.trans h.rent_eq
  score_eq := h'.score_eq.trans h.score_eq
  delta_epoch_eq := h'.delta_epoch_eq.trans h.delta_epoch_eq

theorem World.LeftAlone.of_eq (hstakes : w'.stakes k = w.stakes k)
    (hle : w.lamportsOf k ≤ w'.lamportsOf k) : w.LeftAlone ls w' k where
  follows account ha := ⟨account, hstakes.trans ha, .refl⟩
  unchanged := .inl ⟨hstakes, hle⟩

theorem World.LeftAlone.managed (h : w.LeftAlone ls w' k) (hk : w.Managed k) : w'.Managed k := by
  obtain ⟨account, ha, hstaker, hwithdrawer⟩ := hk
  obtain ⟨account', ha', hfollows⟩ := h.follows account ha
  exact ⟨account', ha', by rw [hfollows.meta_eq, hstaker], by rw [hfollows.meta_eq, hwithdrawer]⟩

theorem World.LeftAlone.snoc (h : w₀.LeftAlone ls w₁ k) (h' : w₁.LeftAlone [l] w₂ k) :
    w₀.LeftAlone (l :: ls) w₂ k where
  follows account ha := by
    obtain ⟨account', ha', hfollows⟩ := h.follows account ha
    obtain ⟨account'', ha'', hfollows'⟩ := h'.follows account' ha'
    exact ⟨account'', ha'', hfollows.trans hfollows'⟩
  unchanged := by
    rcases h.unchanged with ⟨hstakes, hle⟩ | ⟨x, hx, hk⟩
    · rcases h'.unchanged with ⟨hstakes', hle'⟩ | ⟨x, hx, hk⟩
      · exact .inl ⟨hstakes'.trans hstakes, hle.trans hle'⟩
      · obtain rfl := List.mem_singleton.mp hx
        exact .inr ⟨x, List.mem_cons_self, hk⟩
    · exact .inr ⟨x, List.mem_cons_of_mem _ hx, hk⟩

theorem World.Frozen.refl : w.Frozen [] w where
  paused_eq := rfl
  books := .refl
  price_eq := rfl
  moves := .refl
  flags_eq := rfl
  tickets_iff _ _ := Iff.rfl
  managed _ _ := .of_eq rfl le_rfl
  lamports_le _ _ _ _ _ := le_rfl
  msol_leg_le := le_rfl
  msol_supply_le := le_rfl
  lp_supply_le := le_rfl

theorem World.Frozen.snoc (h : w₀.Frozen ls w₁) (h' : w₁.Frozen [l] w₂) :
    w₀.Frozen (l :: ls) w₂ where
  paused_eq := h'.paused_eq.trans h.paused_eq
  books := h.books.trans h'.books
  price_eq := h'.price_eq.trans h.price_eq
  moves := ⟨h'.moves.1.trans h.moves.1, h'.moves.2.trans h.moves.2⟩
  flags_eq := h'.flags_eq.trans h.flags_eq
  tickets_iff k ticket := (h'.tickets_iff k ticket).trans (h.tickets_iff k ticket)
  managed k hk := (h.managed k hk).snoc (h'.managed k ((h.managed k hk).managed hk))
  lamports_le k hsign hplace hstakes hvalidators :=
    (h.lamports_le k hsign hplace hstakes hvalidators).trans
      (h'.lamports_le k hsign hplace hstakes hvalidators)
  msol_leg_le := h.msol_leg_le.trans h'.msol_leg_le
  msol_supply_le := h'.msol_supply_le.trans h.msol_supply_le
  lp_supply_le := h'.lp_supply_le.trans h.lp_supply_le

/-! ## What it changes -/

/-- A configuration alone. -/
theorem World.Frozen.of_reconfigured {extraRuns : Option ℕ} {pause : Option Bool}
    (hchain : w'.toChain = w.toChain) (h : w.state.Reconfigured extraRuns pause w'.state)
    (hpaused : w'.state.paused = w.state.paused) : w.Frozen ls w' where
  paused_eq := hpaused
  books := h.toSameBooks
  price_eq := h.price_eq
  moves := h.moves
  flags_eq := by rw [hchain]
  tickets_iff _ _ := by rw [hchain]
  managed _ _ := .of_eq (by rw [hchain]) (by rw [hchain])
  lamports_le _ _ _ _ _ := by rw [hchain]
  msol_leg_le := by rw [hchain]
  msol_supply_le := by rw [hchain]
  lp_supply_le := by rw [hchain]

/-- Resizing a list settles its rent, and nothing else. -/
theorem ReallocList.Spec.frozen {accounts : ReallocList} {list : Pubkey}
    (h : accounts.Spec list w w') (hlist : list = .stakeList ∨ list = .validatorList)
    (hsound : w.StakesSound rt) : w.Frozen ls w' where
  paused_eq := h.books.paused_eq
  books := h.books.toSameBooks
  price_eq := h.books.price_eq
  moves := h.books.moves
  flags_eq := by rw [h.frame]
  tickets_iff k ticket := by rw [Chain.OwnTicket, Chain.OwnTicket, h.frame]
  managed k hk := .of_eq (by rw [h.frame]) (h.stake_le hlist hsound hk.stakes_ne_none)
  lamports_le k hsign _ hstakes hvalidators := by
    refine (h.lamports_le k ?_ (Chain.ne_of_not_canSign hsign h.payer_unused)).ge
    rcases hlist with rfl | rfl
    · exact hstakes
    · exact hvalidators
  msol_leg_le := by rw [h.frame]
  msol_supply_le := by rw [h.frame]
  lp_supply_le := by rw [h.frame]

/-- A paused program only runs the instructions that configure. They move nothing, and of the pause
only a resumption makes an end. -/
theorem Executed.frozen (h : Executed rt w w' i e) (hsound : w.StakesSound rt)
    (hp : w.state.paused = true) (hresume : ∀ authority, i ≠ .resume authority) :
    w.Frozen ls w' := by
  have hi : i.configures = true := by
    by_contra hno
    exact absurd (hp.symm.trans (h.leaves.not_paused (by simpa using hno))) (by decide)
  have hpauses : i.pauses.getD true = true := by
    cases i with
    | resume authority => exact absurd rfl (hresume authority)
    | _ => rfl
  obtain ⟨hbooks, hchain | ⟨accounts, list, hlist, hspec⟩⟩ := h.configured hi
  · refine .of_reconfigured hchain hbooks ?_
    rw [hbooks.paused_eq, hp, hpauses]
  · exact hspec.frozen hlist hsound

/-- What happens without the program only changes delegations, each in a step that says so. -/
theorem External.leftAlone (h : x.Happens rt w.toChain w'.toChain) (hk : w.Managed k) :
    w.LeftAlone [.external x] w' k where
  follows _ ha := External.follows h hk ha
  unchanged := by
    by_cases hx : x.redelegates = some k
    · exact .inr ⟨x, List.mem_singleton_self _, hx⟩
    · refine .inl ⟨External.stakes_eq h hk hx, ?_⟩
      have hle := External.managed_le h hk
      cases x with
      | slash k' y =>
        have hne : k ≠ k' := fun heq ↦ hx (congrArg some heq.symm)
        simpa only [only_of_ne hne, Nat.add_zero] using hle
      | _ => exact hle

theorem External.msol_leg_le (h : x.Happens rt w.toChain w'.toChain) :
    w.msol.amount .msolLeg ≤ w'.msol.amount .msolLeg := by
  cases x with
  | outside => exact Outside.msol_leg_le h
  | tick =>
    obtain ⟨_, -, -, hc⟩ := h
    rw [hc]
  | reward =>
    obtain ⟨_, _, -, -, -, hc⟩ := h
    rw [hc]
  | slash =>
    obtain ⟨_, _, _, -, -, -, -, -, hc⟩ := h
    rw [hc]
  | deactivateDelinquent =>
    obtain ⟨_, _, -, -, -, hc⟩ := h
    rw [hc]

/-- What happens without the program only adds to its accounts. -/
theorem External.frozen (h : x.Happens rt w.toChain w'.toChain) (hs : w'.state = w.state)
    (hsound : w.StakesSound rt) : w.Frozen [.external x] w' := by
  obtain ⟨hlamports, hmsol, hlp⟩ := External.pool_le h hsound
  exact {
    paused_eq := by rw [hs]
    books := by rw [hs]; exact .refl
    price_eq := by rw [hs]
    moves := by rw [hs]; exact .refl
    flags_eq := External.flags_eq h
    tickets_iff := fun _ _ ↦ External.ownTicket_iff h
    managed := fun _ hk ↦ External.leftAlone h hk
    lamports_le := fun k hsign hplace _ _ ↦ hlamports k hsign hplace
    msol_leg_le := External.msol_leg_le h
    msol_supply_le := hmsol
    lp_supply_le := hlp }

/-! ## Every run -/

/-- Only the pause authority ends a pause. -/
theorem Step.frozen_or_resumes (hs : Step rt w l w') (h : (marinade rt).Reachable w)
    (hp : w.state.paused = true) :
    w.Frozen [l] w' ∨ l.resumes = true ∧ l.SignedBy w.state.pauseAuthority := by
  have hsound := (wellFormed_of_reachable h).stakes_sound
  cases l with
  | external x => exact .inl (External.frozen hs.1 hs.2 hsound)
  | instruction i e =>
    by_cases hr : (Label.instruction i e).resumes = true
    · refine .inr ⟨hr, ?_⟩
      cases i with
      | resume authority =>
        obtain ⟨hresume, -⟩ := onState_eq_ok hs
        simp only [EmergencyPause.resume, bind_eq_ok, ensure_eq_ok, exists_const] at hresume
        simp [Label.SignedBy, Instruction.signers, hresume.1]
      | _ => cases hr
    · refine .inl ((executed_of_exec hs hsound).frozen hsound hp ?_)
      rintro authority rfl
      exact hr rfl

/-- From a pause on, until somebody ends it, nothing of the pool moves in any run. -/
theorem frozen_or_resumed (h : (marinade rt).Run w₀ ls w) (h₀ : (marinade rt).Reachable w₀)
    (hp : w₀.state.paused = true) : w₀.Frozen ls w ∨ ∃ l ∈ ls, l.resumes = true := by
  refine h.or_exists (P := fun ls w ↦ w₀.Frozen ls w) h₀ .refl ?_
  intro ls w l w' hr hfrozen hs
  rcases Step.frozen_or_resumes hs hr (hfrozen.paused_eq.trans hp) with hstep | ⟨hresumes, -⟩
  · exact .inl (hfrozen.snoc hstep)
  · exact .inr hresumes

/-- Nor does it move unless the pause authority has signed, or the admin, who may name another. -/
theorem frozen_or_signed (h : (marinade rt).Run w₀ ls w) (h₀ : (marinade rt).Reachable w₀)
    (hp : w₀.state.paused = true) : w₀.Frozen ls w ∨
      ∃ l ∈ ls, l.SignedBy w₀.state.adminAuthority ∨ l.SignedBy w₀.state.pauseAuthority := by
  have hrun := h.or_exists (P := fun ls w ↦ w.state.configuration = w₀.state.configuration ∧
      w₀.Frozen ls w)
    (B := fun l ↦ l.SignedBy w₀.state.adminAuthority ∨ l.SignedBy w₀.state.pauseAuthority)
    h₀ ⟨rfl, .refl⟩ ?_
  · rcases hrun with ⟨-, hfrozen⟩ | hsigned
    · exact .inl hfrozen
    · exact .inr hsigned
  · rintro ls w l w' hr ⟨hconf, hfrozen⟩ hs
    have hadmin : w.state.adminAuthority = w₀.state.adminAuthority :=
      congrArg Configuration.adminAuthority hconf
    have hpause : w.state.pauseAuthority = w₀.state.pauseAuthority :=
      congrArg Configuration.pauseAuthority hconf
    rw [← hadmin, ← hpause]
    rcases Step.configuration_or_signed hs hr with hconf' | hsigned
    · rcases Step.frozen_or_resumes hs hr (hfrozen.paused_eq.trans hp) with hstep | ⟨-, hsigned⟩
      · exact .inl ⟨hconf'.trans hconf, hfrozen.snoc hstep⟩
      · exact .inr (.inr hsigned)
    · exact .inr (.inl hsigned)

/-- From a pause on nothing of the pool moves in any run: not before it is ended, and not unless the
pause authority or the admin has signed. -/
theorem frozen_of_run (h : (marinade rt).Run w₀ ls w) (h₀ : (marinade rt).Reachable w₀)
    (hp : w₀.state.paused = true) : w₀.Frozen ls w ∨
      (∃ l ∈ ls, l.resumes = true) ∧
        ∃ l ∈ ls, l.SignedBy w₀.state.adminAuthority ∨ l.SignedBy w₀.state.pauseAuthority := by
  rcases frozen_or_resumed h h₀ hp with hfrozen | hresumed
  · exact .inl hfrozen
  · rcases frozen_or_signed h h₀ hp with hfrozen | hsigned
    · exact .inl hfrozen
    · exact .inr ⟨hresumed, hsigned⟩

end

/-! ## A paused pool -/

namespace Sample

def pausing : List Action := staking ++ [.run (.pause user)]

def paused : List Label × World :=
  (replay runtime (fun _ _ ↦ true) fresh pausing).get (by decide +kernel)

theorem paused_reachable : (marinade runtime).Reachable paused.2 :=
  (run_of_replay (Option.some_get _).symm).reachable fresh_fresh

/-- Rewards arrive and the admin changes the limits, but nothing is booked. -/
def resting : List Action := [
  .reward (.external 30) 1000000,
  .tick (startOf 2),
  .run (.configMarinade user ⟨none, none, none, some 1000, none, none, none, none, none, none,
    none, none, none⟩)]

def rested : List Label × World :=
  (replay runtime (fun _ _ ↦ true) paused.2 resting).get (by decide +kernel)

theorem rested_run : (marinade runtime).Run paused.2 rested.1 rested.2 :=
  run_of_replay (Option.some_get _).symm

end Sample

theorem frozen_sample : Sample.paused.2.Frozen Sample.rested.1 Sample.rested.2 ∨
    (∃ l ∈ Sample.rested.1, l.resumes = true) ∧
      ∃ l ∈ Sample.rested.1, l.SignedBy Sample.paused.2.state.adminAuthority ∨
        l.SignedBy Sample.paused.2.state.pauseAuthority :=
  frozen_of_run Sample.rested_run Sample.paused_reachable (by decide +kernel)

end Marinade
