import Marinade.Invariants.Soundness
import Marinade.Replay

/-!
# Nobody loses without signing

Whatever instruction is called, with whatever accounts and arguments: keys that do not sign it keep
what they own. The program takes lamports from a payer that signs, tokens by the signature of their
owner or delegate, and a stake account by the signature of its authorities; a claim pays for the
ticket it closes.

The order of the instructions does not matter, and neither does who else calls what in between.
-/

open Foundation Foundation.Ledger

namespace Marinade

section

variable {U : Pubkey → Prop} {rt : Runtime} {w w' : World} {ins : Instruction} {e : Event}

/-! ## Every instruction -/

/-- A claim takes from a ticket what it pays to its beneficiary. -/
theorem Claim.Spec.spares {accounts : Claim} {e : ClaimEvent} {rent : ℕ}
    (hspec : Spec accounts w w' e rent) (hw : WellFormed rt w) : w.Spares U w'.toChain := by
  obtain ⟨epoch, hticket⟩ := hspec.ticket
  have htickets : w'.tickets = w.tickets.erase e.ticket := hspec.tickets_eq
  refine ⟨fun k hk hu ↦ ?_, fun k account _ ha _ _ ↦ ?_, ?_, ?_⟩
  · have hlookup : w.tickets.lookup k = none := (Chain.isUnused_iff.mp hu).2.2.2.2.2.2.2
    have hne : k ≠ accounts.ticketAccount := by
      rintro rfl
      rw [← hspec.ticket_eq, hticket] at hlookup
      cases hlookup
    have hreserve : k ≠ .reserve := Chain.ne_of_not_canSign rfl hu |>.symm
    have hlamports := hspec.lamports_eq k
    rw [only_of_ne hne, only_of_ne hreserve, ← hspec.beneficiary_eq, only_add] at hlamports
    have hpromised : w'.promised k + only e.beneficiary e.amount k = w.promised k :=
      Chain.promised_erase hticket htickets
    refine ⟨?_, by omega, by omega⟩
    obtain ⟨hsign, h₁, h₂, h₃, hs, hm, hl, -⟩ := Chain.isUnused_iff.mp hu
    refine Chain.isUnused_iff.mpr ⟨hsign, h₁, h₂, h₃, ?_, ?_, ?_, ?_⟩
    · rw [hspec.frame, hs]
    · rw [hspec.frame, hm]
    · rw [hspec.frame, hl]
    · rw [htickets, AList.lookup_erase_ne (hspec.ticket_eq ▸ hne), hlookup]
  · have hk : w.stakes k ≠ none := by
      rw [ha]
      exact Option.some_ne_none account
    exact ⟨by rw [hspec.frame, ha], hspec.stake_le hw hk⟩
  · rw [hspec.frame]
    exact .refl _
  · rw [hspec.frame]
    exact .refl _

/-- An instruction spares whoever does not sign it. -/
theorem Executed.spares (h : Executed rt w w' ins e) (hw : WellFormed rt w) :
    w.SparesOthers ins.signers w'.toChain := by
  cases h with
  | claim h => exact fun U _ ↦ h.spares hw
  | addValidator h => exact h.spares.mono (List.subset_cons_self _ _)
  | removeValidator h => exact h.spares.mono (List.nil_subset _)
  | notUnstaked h _ hsigners => exact h.spares.mono hsigners
  | unstakedWhole h _ hsigners => exact h.spares.mono hsigners
  | unstakedSplit h _ hsigners => exact h.spares.mono hsigners
  | realloc _ _ _ _ h hsigners => exact h.spares.mono hsigners
  | setValidatorScore h =>
    rw [h.frame]
    exact .refl _
  | config _ _ hframe | finalizeDelinquentUpgrade _ hframe =>
    rw [hframe]
    exact .refl _
  | _ h => exact h.spares

theorem spares_of_exec (h : exec rt w ins = .ok (w', e)) (hw : WellFormed rt w)
    (hU : ∀ k, U k → k.canSign = true) (hs : ∀ k ∈ ins.signers, ¬U k) : w.Spares U w'.toChain :=
  (executed_of_exec h hw.stakes_sound).spares hw U ⟨hU, hs⟩

/-! ## Every run -/

/-- The program for keys that do nothing themselves: they sign no instruction, and what happens
without the program leaves what they own alone. -/
def bystander (rt : Runtime) (U : Pubkey → Prop) : System World Label where
  init := (marinade rt).Reachable
  step w l w' := Step rt w l w' ∧
    match l with
    | .instruction i _ => ∀ k ∈ i.signers, ¬U k
    | .external _ => w.Spares U w'.toChain

/-- Keys that do nothing keep what they own, whatever instructions others run in whatever order:
their system accounts keep their lamports, and with what is promised by their tickets they never
fall; their stake accounts are not touched; and of their token accounts nothing is spent but what
they had delegated. -/
theorem bystander_spared {w₀ : World} {ls : List Label} (h : (bystander rt U).Run w₀ ls w)
    (h₀ : (marinade rt).Reachable w₀) (hU : ∀ k, U k → k.canSign = true) :
    w₀.Spares U w.toChain := by
  have hall : (marinade rt).Reachable w ∧ w₀.Spares U w.toChain := by
    refine h.induct (P := fun _ w ↦ (marinade rt).Reachable w ∧ w₀.Spares U w.toChain)
      ⟨h₀, .refl _⟩ ?_
    rintro ls w (⟨i, e⟩ | x) w' - ⟨hr, hspared⟩ ⟨hs, hl⟩
    · have hkept := spares_of_exec hs (wellFormed_of_reachable hr) hU hl
      exact ⟨hr.step (l := .instruction i e) hs, hspared.trans hkept⟩
    · exact ⟨hr.step (l := .external x) hs, hspared.trans hl⟩
  exact hall.2

end

/-! ## A claim by somebody else -/

namespace Sample

/-- The user has a ticket that is due. -/
def owed : List Label × World :=
  (replay runtime (fun _ _ ↦ true) fresh (claiming.take 3)).get (by decide +kernel)

theorem owed_reachable : (marinade runtime).Reachable owed.2 :=
  (run_of_replay (Option.some_get _).symm).reachable fresh_fresh

theorem paying_isSome :
    (exec runtime owed.2 (.claim ⟨.external 40, user⟩)).toOption.isSome = true := by
  decide +kernel

/-- Nobody has to sign for the claim. -/
theorem paying_run : (bystander runtime (· = user)).Run owed.2 [.instruction
    (.claim ⟨.external 40, user⟩)
    ((exec runtime owed.2 (.claim ⟨.external 40, user⟩)).toOption.get paying_isSome).2]
    ((exec runtime owed.2 (.claim ⟨.external 40, user⟩)).toOption.get paying_isSome).1 :=
  System.Run.nil.snoc ⟨step_of_isSome paying_isSome rfl, by simp [Instruction.signers]⟩

end Sample

theorem bystander_spared_sample : Sample.owed.2.Spares (· = Sample.user)
    ((exec Sample.runtime Sample.owed.2 (.claim ⟨.external 40, Sample.user⟩)).toOption.get
      Sample.paying_isSome).1.toChain :=
  bystander_spared Sample.paying_run Sample.owed_reachable fun _ hk ↦ by rw [hk]; rfl

end Marinade
