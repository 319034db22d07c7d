import CrowdTic.TokenTurns

/-! Who can take a ticket from its holder. What the contract stores about
operators and approvals is what the holders have said in the calls of the run,
in callbacks as well as between transactions. -/

namespace CrowdTic

section Words

variable {K : Type}

abbrev NftTrace (K : Type) := List (NftConfig K × Option (Address × NftCall))

/-- What the label says about the operator `x` of `a`, if anything. -/
def spokenWord (a x : Address) : Option (Address × NftCall) → Option Bool
  | some (v, .setApprovalForAll o b) => if v = a ∧ o = x then some b else none
  | _ => none

/-- The last word of `a` about its operator `x`. -/
def operatorWord (a x : Address) (tr : NftTrace K) : Bool :=
  tr.foldl (fun b p => (spokenWord a x p.2).getD b) false

theorem operatorWord_snoc (a x : Address) (tr : NftTrace K) (c : NftConfig K)
    (l : Option (Address × NftCall)) :
    operatorWord a x (tr ++ [(c, l)]) = (spokenWord a x l).getD (operatorWord a x tr) := by
  rw [operatorWord, List.foldl_append]
  rfl

/-- The holder of the token, or one of its operators, has approved `x` for it, and
the token has not changed hands since. -/
def Approved (t : Nat) (x : Address) (tr : NftTrace K) (s : TicketNft K) : Prop :=
  ∃ pre u v post, tr = pre ++ (u, some (v, .approve x t)) :: post ∧
    (v = s.owners t ∨ operatorWord (s.owners t) v pre = true) ∧ u.state.owners t = s.owners t ∧
    ∀ p ∈ post, p.1.state.owners t = s.owners t

theorem Approved.snoc {t : Nat} {x : Address} {tr : NftTrace K} {s s' : TicketNft K} {c : NftConfig K}
    (l : Option (Address × NftCall)) (h : Approved t x tr s) (hc : c.state.owners t = s.owners t)
    (hs : s'.owners t = s.owners t) : Approved t x (tr ++ [(c, l)]) s' := by
  obtain ⟨pre, u, v, post, rfl, hv, hu, hpost⟩ := h
  refine ⟨pre, u, v, post ++ [(c, l)], by simp, hs ▸ hv, hu.trans hs.symm, fun p hp => ?_⟩
  rcases List.mem_append.mp hp with hp | hp
  · exact (hpost p hp).trans hs.symm
  · obtain rfl := List.mem_singleton.mp hp
    exact hc.trans hs.symm

/-- The call takes the token from its holder with the holder's consent, or the organizer cancels it. -/
inductive Consented (tr : NftTrace K) (s : TicketNft K) (t : Nat) : Option (Address × NftCall) → Prop
  | holder {r : Address} : Consented tr s t (some (s.owners t, .transferFrom (s.owners t) r t))
  | operator {x r : Address} (h : operatorWord (s.owners t) x tr = true) :
    Consented tr s t (some (x, .transferFrom (s.owners t) r t))
  | approved {x r : Address} (h : Approved t x tr s) :
    Consented tr s t (some (x, .transferFrom (s.owners t) r t))
  | organizer : Consented tr s t (some (s.owner, .cancelTicket t))

end Words

section Stored

variable {K : Type} {s s' : TicketNft K} {a x : Address} {t : Nat} {c : NftCall}

theorem Executed.operators (h : Executed s a c s') (b x : Address) :
    s'.operatorApprovals b x = (spokenWord b x (some (a, c))).getD (s.operatorApprovals b x) := by
  cases h with
  | @setApprovalForAll o w =>
    by_cases hb : b = a
    · by_cases hx : x = o
      · simp [TicketNft.setApprovalForAll, spokenWord, hb, hx]
      · simp [TicketNft.setApprovalForAll, spokenWord, hb, hx, Ne.symm hx]
    · simp [TicketNft.setApprovalForAll, spokenWord, hb, Ne.symm hb]
  | _ => rfl

/-- What a call other than a mint does to the approval of the token `t`. -/
inductive ApprovalChange (s s' : TicketNft K) (a : Address) (t : Nat) : NftCall → Prop
  | approved {x : Address} (ha : s.owners t = a ∨ s.operatorApprovals (s.owners t) a = true)
    (hx : s'.tokenApprovals t = x) (ho : s'.owners t = s.owners t) :
    ApprovalChange s s' a t (.approve x t)
  | cleared {c : NftCall} (hx : s'.tokenApprovals t = 0) : ApprovalChange s s' a t c
  | kept {c : NftCall} (hx : s'.tokenApprovals t = s.tokenApprovals t) (ho : s'.owners t = s.owners t) :
    ApprovalChange s s' a t c

theorem Executed.approval (h : Executed s a c s') (t : Nat) : ApprovalChange s s' a t c := by
  cases h with
  | @cancelTicket v =>
    by_cases ht : t = v
    · subst ht
      exact .cleared (by simp [TicketNft.burned, TicketNft.setOwnerOf])
    · refine .kept ?_ ?_ <;> simp [TicketNft.burned, TicketNft.setOwnerOf, ht]
  | @transferFrom source recipient v =>
    by_cases ht : t = v
    · subst ht
      exact .cleared (by simp [TicketNft.handed, TicketNft.setOwnerOf])
    · refine .kept ?_ ?_ <;> simp [TicketNft.handed, TicketNft.setOwnerOf, ht]
  | @approve r v hlive ha =>
    by_cases ht : t = v
    · subst ht
      exact .approved ha (by simp) rfl
    · exact .kept (by simp [ht]) rfl
  | _ => exact .kept rfl rfl

end Stored

section Runs

variable {K : Type} [DecidableEq K] {k : Keccak K} {d : Address} {tr tr₀ : NftTrace K}
  {c c₀ c' : NftConfig K} {l : Option (Address × NftCall)} {t : Nat}

theorem operators_eq (h : Run (Turn (nftCalls k)) (.start (.deployed d)) tr c) (a x : Address) :
    c.state.operatorApprovals a x = operatorWord a x tr := by
  induction h with
  | nil => rfl
  | @snoc tr u v l _ hs ih =>
    rw [operatorWord_snoc, ← ih]
    cases nftTurn_cases hs with
    | executed hx => exact hx.operators a x
    | minting he hr hnew => rfl
    | minted => rfl

/-- An account that is approved for a token was approved by the holder or an operator of the holder. -/
theorem approved_of_run (h : Run (Turn (nftCalls k)) (.start (.deployed d)) tr c)
    (hx : c.state.tokenApprovals t ≠ 0) : Approved t (c.state.tokenApprovals t) tr c.state := by
  induction h with
  | nil => exact absurd rfl hx
  | @snoc tr u v l hrun hs ih =>
    cases nftTurn_cases hs with
    | @executed s s' p a i hexec =>
      cases hexec.approval t with
      | approved ha hx' ho =>
        refine ⟨tr, ⟨s, p⟩, a, [], hx' ▸ rfl, ?_, ho.symm, by simp⟩
        rw [ho]
        exact ha.imp Eq.symm fun hop => (operators_eq hrun _ _).symm.trans hop
      | cleared hx' => exact absurd hx' hx
      | kept hx' ho =>
        have hold : Approved t (s.tokenApprovals t) tr s := ih (hx' ▸ hx)
        have hnow : Approved t (s.tokenApprovals t) (tr ++ [(⟨s, p⟩, some (a, i))]) s' := hold.snoc _ rfl ho
        exact hx'.symm ▸ hnow
    | @minting s p a r e n f q w he hr hnew =>
      have ht : t ≠ s.tokenIdCounter := by
        intro ht
        exact hx (ht ▸ Function.update_self ..)
      have hx' : (s.minting r).tokenApprovals t = s.tokenApprovals t := Function.update_of_ne ht _ _
      have hold : Approved t (s.tokenApprovals t) tr s := ih (hx' ▸ hx)
      exact hx'.symm ▸ hold.snoc _ rfl (owners_minting_of_ne ht)
    | minted => exact (ih hx).snoc _ rfl rfl

theorem consented_of_turn (h : Run (Turn (nftCalls k)) (.start (.deployed d)) tr c)
    (hs : Turn (nftCalls k) c l c') (hcaller : ∀ x i, l = some (x, i) → x ≠ 0)
    (hlive : c.state.exists_ t) (hlost : c'.state.owners t ≠ c.state.owners t) :
    Consented tr c.state t l := by
  cases nftTurn_cases hs with
  | @executed s s' p a i hexec =>
    have htoken := hexec.token t
    cases htoken with
    | @moved source recipient _ _ ha ho =>
      subst ho
      rcases ha with howner | hop | happ
      · exact howner ▸ .holder
      · exact .operator ((operators_eq h _ _).symm.trans hop)
      · have hne : s.tokenApprovals t ≠ 0 := happ.symm ▸ hcaller a _ rfl
        exact .approved (happ ▸ approved_of_run h hne)
    | burned =>
      cases hexec with
      | cancelTicket ha => exact ha ▸ .organizer
    | kept _ ho => exact absurd ho hlost
  | @minting s p a r e n f q w he hr hnew =>
    have ht : t ≠ s.tokenIdCounter := fun ht => hnew (ht ▸ hlive)
    exact absurd (owners_minting_of_ne ht) hlost
  | minted => exact absurd rfl hlost

/-- A ticket leaves its holder by consent only: over every run, the first call after which it has
another owner is the holder's, or that of an operator or of an approved account of the holder, or
the organizer cancels it. -/
theorem tickets_leave_by_consent (h₀ : Run (Turn (nftCalls k)) (.start (.deployed d)) tr₀ c₀)
    (h : Run (Turn (nftCalls k)) c₀ tr c) (hcallers : ∀ p ∈ tr, ∀ x i, p.2 = some (x, i) → x ≠ 0)
    (hlive : c₀.state.exists_ t) (hlost : c.state.owners t ≠ c₀.state.owners t) :
    ∃ pre u l post, tr = pre ++ (u, l) :: post ∧ u.state.owners t = c₀.state.owners t ∧
      Consented (tr₀ ++ pre) u.state t l := by
  induction h with
  | nil => exact absurd rfl hlost
  | @snoc tr u v l hrun hs ih =>
    obtain ⟨hpre, hlast⟩ := List.forall_mem_append.mp hcallers
    by_cases hu : u.state.owners t = c₀.state.owners t
    · have hlive' : u.state.exists_ t := by
        rw [TicketNft.exists_, hu]
        exact hlive
      have hconsent := consented_of_turn (h₀.append hrun) hs
        (hlast (u, l) (List.mem_singleton.mpr rfl)) hlive' (hu ▸ hlost)
      exact ⟨tr, u, l, [], rfl, hu, hconsent⟩
    · obtain ⟨pre, w, l', post, rfl, hw, hconsent⟩ := ih hpre hu
      exact ⟨pre, w, l', post ++ [(u, l)], by simp, hw, hconsent⟩

end Runs

section Demo

def demoMinted : List (Option (Address × NftCall)) := [some (1, .mintTicket 2 7 1 100 false ""), none]

/-- An account that is approved for the ticket hands it on. -/
def demoResold : List (Option (Address × NftCall)) := [some (2, .approve 3 0), some (3, .transferFrom 2 4 0)]

theorem tickets_leave_by_consent_approved :
    let c₀ := demoMinted.foldl (Config.played (nftCalls demoKeccak)) (.start (.deployed 1))
    let tr₀ := Run.record (Config.played (nftCalls demoKeccak)) (.start (.deployed 1)) demoMinted
    ∃ pre u l post, Run.record (Config.played (nftCalls demoKeccak)) c₀ demoResold = pre ++ (u, l) :: post ∧
      u.state.owners 0 = 2 ∧ Consented (tr₀ ++ pre) u.state 0 l := by
  intro c₀ tr₀
  have hrun₀ : Run (Turn (nftCalls demoKeccak)) (.start (.deployed 1)) tr₀ c₀ :=
    Config.run_played (nftCalls demoKeccak) _ demoMinted (by decide)
  have hrun := Config.run_played (nftCalls demoKeccak) c₀ demoResold (by decide)
  have howner : c₀.state.owners 0 = 2 := by decide
  refine howner ▸ tickets_leave_by_consent hrun₀ hrun (fun p hp x i hl => ?_) (by decide) (by decide)
  rcases List.mem_cons.mp (Run.label_mem_of_record hp) with he | he
  · cases he.symm.trans hl
    decide
  · cases (List.mem_singleton.mp he).symm.trans hl
    decide

end Demo

end CrowdTic
