import StratumServer.Payouts.Apportionment
import Mathlib.Data.Finset.Sort

/-!
# What the work does in a payout plan

The outputs of a plan are the parts of the addresses, so they depend on the
shares through the weights of the addresses only.

There are three groups.

* `triples_congr`: shares of the same addresses with the same work for each
  of them give the same outputs, but for the worker ids.  A share for no work
  adds an address, and its dust then counts (`triples_congr_fails`).
* `received_mono`: more work for an address does not lower its output.
* The unit of the work.  Dust counts as work in units of the reward, and not
  of the work of the window, so the outputs change with the unit
  (`unitFree_fails`).  `unitFree_iff` says when they do not.
-/

namespace StratumServer

open LargestRemainder

/-! ## The outputs from the weights -/

/-- What an address gets when its part is `n`. -/
def clipPart (minPayoutSat : Int) (a : String) (n : Int) :
    String × Int × Int :=
  if n < minPayoutSat then (a, 0, n) else (a, n, 0)

theorem clipPart_inj {minPayoutSat n n' : Int} {a : String}
    (h : clipPart minPayoutSat a n = clipPart minPayoutSat a n') : n = n' := by
  unfold clipPart at h
  split at h <;> split at h <;>
    simp only [Prod.mk.injEq, true_and, and_true] at h <;> omega

/-- The addresses in their order. -/
theorem workByAddr_addresses (shares : List PplnsShareEntry) :
    (workByAddr shares).map (·.address) = (addresses shares).sort := by
  refine @Apportion.eq_of_strictly_sorted _ _ _ id _ _
    (List.pairwise_map.2 (workByAddr_sorted shares))
    (Finset.sortedLT_sort _).pairwise fun a => ?_
  rw [Finset.mem_sort, mem_addresses]
  exact (workByAddr_tallied shares).mem a

section Triples

variable (block : FoundBlock) (networkDifficulty : ℚ) (grossReward : Int)
  (settings : PayoutSettings) (dustBalances : List (String × Int))
  (shares : List PplnsShareEntry)

/-- The outputs are the parts of the addresses, in the order of the
addresses. -/
theorem triples_eq :
    (buildPayoutPlan block networkDifficulty grossReward settings dustBalances
        shares).outputs.map PayoutOutput.triple =
      if 0 < ∑ a ∈ addresses shares, weight grossReward dustBalances shares a ∧
          0 < netReward grossReward settings then
        (addresses shares).sort.map fun a => clipPart settings.minPayoutSat a
          (part (addresses shares) (quota (weight grossReward dustBalances
              shares) (addresses shares) (netReward grossReward settings))
            (netReward grossReward settings) a)
      else [] := by
  split
  · rename_i hpos
    rw [← workByAddr_addresses,
      ← outputs_addresses block networkDifficulty hpos.1 hpos.2, List.map_map]
    refine List.map_congr_left fun o ho => ?_
    obtain ⟨a, haddress, hwhole, heq⟩ :=
      mem_outputs block networkDifficulty hpos.1 hpos.2 ho
    rw [Function.comp_apply, ← hwhole, ← haddress, heq]
    unfold payoutOutput clipPart
    split <;> rfl
  · rename_i hpos
    have hnil : planOutputs (netReward grossReward settings)
        settings.minPayoutSat (weights grossReward dustBalances shares) = [] := by
      rw [planOutputs, weights_sum, if_neg hpos]
    unfold netReward at hnil
    rw [outputs_eq, hnil]
    rfl

end Triples

/-! ## Shares with the same work -/

/-- In a list with distinct keys the order does not matter for a lookup. -/
theorem find?_key_perm {l l' : List (String × Int)} (hperm : l.Perm l')
    (hnodup : (l.map Prod.fst).Nodup) (a : String) :
    l.find? (·.1 == a) = l'.find? (·.1 == a) := by
  -- What a lookup finds is the one entry with the key.
  have hfind : ∀ {l : List (String × Int)}, (l.map Prod.fst).Nodup → ∀ x,
      l.find? (·.1 == a) = some x ↔ x ∈ l ∧ x.1 = a := by
    intro l hnodup x
    constructor
    · intro hx
      have hkey := List.find?_some hx
      exact ⟨List.mem_of_find?_eq_some hx, by simpa using hkey⟩
    · rintro ⟨hx, rfl⟩
      have hsome : (l.find? (·.1 == x.1)).isSome := by
        rw [List.find?_isSome]
        exact ⟨x, hx, beq_self_eq_true _⟩
      obtain ⟨y, hy⟩ := Option.isSome_iff_exists.1 hsome
      have hkey : y.1 = x.1 := by
        have := List.find?_some hy
        simpa using this
      rw [hy, List.inj_on_of_nodup_map hnodup (List.mem_of_find?_eq_some hy) hx
        hkey]
  refine Option.ext fun x => ?_
  rw [hfind hnodup, hfind ((hperm.map Prod.fst).nodup_iff.1 hnodup),
    hperm.mem_iff]

theorem dustBonus_perm {grossReward : Int} {dust dust' : List (String × Int)}
    (hperm : dust.Perm dust') (hnodup : (dust.map Prod.fst).Nodup)
    (a : String) : dustBonus grossReward dust a = dustBonus grossReward dust' a := by
  have hreverse : dust.reverse.Perm dust'.reverse :=
    (List.reverse_perm _).trans (hperm.trans (List.reverse_perm _).symm)
  unfold dustBonus
  rw [find?_key_perm hreverse]
  rw [List.map_reverse]
  exact List.nodup_reverse.2 hnodup

section Congr

variable {shares shares' : List PplnsShareEntry}
  {dust dust' : List (String × Int)}

/-- Shares of the same addresses, with the same work for each of them, and
the same dust give the same plan, but for the workers. -/
theorem triples_congr (haddresses : addresses shares = addresses shares')
    (hwork : ∀ a, shareWork shares a = shareWork shares' a)
    (hdust : dust.Perm dust') (hnodup : (dust.map Prod.fst).Nodup)
    (block : FoundBlock) (networkDifficulty : ℚ) (grossReward : Int)
    (settings : PayoutSettings) :
    let plan := buildPayoutPlan block networkDifficulty grossReward settings
      dust shares
    let plan' := buildPayoutPlan block networkDifficulty grossReward settings
      dust' shares'
    plan.outputs.map PayoutOutput.triple =
        plan'.outputs.map PayoutOutput.triple ∧
      plan.poolFeeAmount = plan'.poolFeeAmount ∧
      plan.dustCarriedForwardTotal = plan'.dustCarriedForwardTotal := by
  intro plan plan'
  have hweight : weight grossReward dust shares =
      weight grossReward dust' shares' := by
    funext a
    rw [weight, weight, hwork, dustBonus_perm hdust hnodup]
  have htriples : plan.outputs.map PayoutOutput.triple =
      plan'.outputs.map PayoutOutput.triple := by
    rw [triples_eq, triples_eq, haddresses, hweight]
  refine ⟨htriples, rfl, ?_⟩
  have hsums := congrArg (fun l => (l.map fun x : String × Int × Int =>
    x.2.2).sum) htriples
  simp only [List.map_map] at hsums
  rw [dustCarriedForwardTotal_eq, dustCarriedForwardTotal_eq]
  exact hsums

end Congr

/-- The work of the sample, with its shares split in another way and at other
workers, and the dust in another order. -/
theorem triples_congr_sample :
    let shares := [⟨4, 4, 1, "lotus_b", 5, 13⟩, ⟨2, 2, 2, "lotus_a", 1, 11⟩,
      ⟨5, 5, 1, "lotus_b", 1, 14⟩]
    let plan := buildPayoutPlan sampleBlock 1 100 smallFee
      [("lotus_a", 30), ("lotus_c", 5)] sampleShares
    let plan' := buildPayoutPlan sampleBlock 1 100 smallFee
      [("lotus_c", 5), ("lotus_a", 30)] shares
    plan.outputs.map PayoutOutput.triple = plan'.outputs.map PayoutOutput.triple := by
  refine (triples_congr (by decide +kernel) (fun a => ?_)
    (List.Perm.swap _ _ _) (by decide) sampleBlock 1 100 smallFee).1
  by_cases ha : a = "lotus_a"
  · subst ha
    decide +kernel
  · by_cases hb : a = "lotus_b"
    · subst hb
      decide +kernel
    · simp [shareWork, sampleShares, Ne.symm ha, Ne.symm hb]

/-- A share for no work leaves every sum of difficulties as it is.  But it
brings its address into the plan, and with it the dust of the address. -/
theorem triples_congr_fails :
    ∃ shares shares' : List PplnsShareEntry,
      (∀ a, shareWork shares a = shareWork shares' a) ∧
      (buildPayoutPlan sampleBlock 1 100 smallFee [("lotus_b", 50)]
          shares).outputs.map PayoutOutput.triple = [("lotus_a", 99, 0)] ∧
      (buildPayoutPlan sampleBlock 1 100 smallFee [("lotus_b", 50)]
          shares').outputs.map PayoutOutput.triple =
        [("lotus_a", 66, 0), ("lotus_b", 33, 0)] := by
  refine ⟨[⟨1, 1, 1, "lotus_a", 1, 10⟩],
    [⟨1, 1, 1, "lotus_a", 1, 10⟩, ⟨2, 2, 2, "lotus_b", 0, 11⟩], fun a => ?_,
    by decide +kernel, by decide +kernel⟩
  by_cases ha : "lotus_a" = a <;> by_cases hb : "lotus_b" = a <;>
    simp [shareWork, ha, hb]

/-! ## More work -/

/-- What a plan gives an address: the amount and the dust of its output. -/
def received (plan : PayoutPlan) (a : String) : Int × Int :=
  match plan.outputs.find? (·.payoutAddress == a) with
  | some o => (o.amount, o.dustCarriedForward)
  | none => (0, 0)

theorem clipPart_fst (minPayoutSat : Int) (a : String) (n : Int) :
    (clipPart minPayoutSat a n).1 = a := by
  unfold clipPart
  split <;> rfl

theorem received_eq_triples (plan : PayoutPlan) (a : String) :
    received plan a =
      (((plan.outputs.map PayoutOutput.triple).find? (·.1 == a)).map
        Prod.snd).getD (0, 0) := by
  have hfind : (plan.outputs.map PayoutOutput.triple).find? (·.1 == a) =
      (plan.outputs.find? (·.payoutAddress == a)).map PayoutOutput.triple := by
    rw [List.find?_map]
    rfl
  rw [hfind, received]
  split <;> rename_i h <;> rw [h] <;> rfl

section More

variable {block : FoundBlock} {networkDifficulty : ℚ} {grossReward : Int}
  {settings : PayoutSettings} {dustBalances : List (String × Int)}
  {shares : List PplnsShareEntry}

/-- An address with a share gets its part. -/
theorem received_of_mem {a : String} (ha : a ∈ addresses shares)
    (hweight : 0 < ∑ b ∈ addresses shares, weight grossReward dustBalances
      shares b)
    (hnet : 0 < netReward grossReward settings) :
    received (buildPayoutPlan block networkDifficulty grossReward settings
        dustBalances shares) a =
      (clipPart settings.minPayoutSat a
        (part (addresses shares) (quota (weight grossReward dustBalances shares)
            (addresses shares) (netReward grossReward settings))
          (netReward grossReward settings) a)).2 := by
  rw [received_eq_triples, triples_eq, if_pos ⟨hweight, hnet⟩, List.find?_map]
  simp only [Function.comp_def, clipPart_fst]
  have hfind : (addresses shares).sort.find? (· == a) = some a := by
    have hsome : ((addresses shares).sort.find? (· == a)).isSome := by
      rw [List.find?_isSome]
      exact ⟨a, (Finset.mem_sort _).2 ha, beq_self_eq_true a⟩
    obtain ⟨b, hb⟩ := Option.isSome_iff_exists.1 hsome
    have hkey := List.find?_some hb
    rw [hb, eq_of_beq hkey]
  rw [hfind]
  rfl

/-- Without a share, a weight or a reward there is nothing. -/
theorem received_eq_zero {a : String}
    (h : ¬ (a ∈ addresses shares ∧
      0 < ∑ b ∈ addresses shares, weight grossReward dustBalances shares b ∧
      0 < netReward grossReward settings)) :
    received (buildPayoutPlan block networkDifficulty grossReward settings
      dustBalances shares) a = (0, 0) := by
  rw [received_eq_triples, triples_eq]
  split
  · rename_i hpos
    have ha : a ∉ addresses shares := fun ha => h ⟨ha, hpos⟩
    have hnone : ((addresses shares).sort.map fun b => clipPart
        settings.minPayoutSat b (part (addresses shares) (quota (weight
          grossReward dustBalances shares) (addresses shares) (netReward
            grossReward settings)) (netReward grossReward settings) b)).find?
        (·.1 == a) = none := by
      rw [List.find?_eq_none]
      intro x hx hkey
      obtain ⟨b, hb, rfl⟩ := List.mem_map.1 hx
      rw [clipPart_fst] at hkey
      rw [← eq_of_beq hkey] at ha
      exact ha ((Finset.mem_sort _).1 hb)
    rw [hnone]
    rfl
  · rfl

/-- The amount and the dust that a plan has for an address. -/
def receivedTotal (plan : PayoutPlan) (a : String) : Int :=
  (received plan a).1 + (received plan a).2

theorem receivedTotal_of_mem {a : String} (ha : a ∈ addresses shares)
    (hweight : 0 < ∑ b ∈ addresses shares, weight grossReward dustBalances
      shares b)
    (hnet : 0 < netReward grossReward settings) :
    receivedTotal (buildPayoutPlan block networkDifficulty grossReward settings
      dustBalances shares) a =
        partOf grossReward settings dustBalances shares a := by
  unfold receivedTotal
  rw [received_of_mem ha hweight hnet]
  unfold clipPart partOf
  split_ifs <;> simp

theorem receivedTotal_eq_zero {a : String}
    (h : ¬ (a ∈ addresses shares ∧
      0 < ∑ b ∈ addresses shares, weight grossReward dustBalances shares b ∧
      0 < netReward grossReward settings)) :
    receivedTotal (buildPayoutPlan block networkDifficulty grossReward settings
      dustBalances shares) a = 0 := by
  unfold receivedTotal
  rw [received_eq_zero h]
  rfl

/-- The minimum divides the total into the amount and the dust. -/
theorem received_eq_clipPart (a : String) :
    received (buildPayoutPlan block networkDifficulty grossReward settings
        dustBalances shares) a =
      (clipPart settings.minPayoutSat a (receivedTotal (buildPayoutPlan block
        networkDifficulty grossReward settings dustBalances shares) a)).2 := by
  by_cases h : a ∈ addresses shares ∧
      0 < ∑ b ∈ addresses shares, weight grossReward dustBalances shares b ∧
      0 < netReward grossReward settings
  · rw [receivedTotal_of_mem h.1 h.2.1 h.2.2, received_of_mem h.1 h.2.1 h.2.2]
    rfl
  · rw [receivedTotal_eq_zero h, received_eq_zero h]
    unfold clipPart
    split_ifs <;> rfl

end More

theorem clipPart_nonneg {minPayoutSat n : Int} {a : String} (h : 0 ≤ n) :
    0 ≤ (clipPart minPayoutSat a n).2.1 ∧
      0 ≤ (clipPart minPayoutSat a n).2.1 + (clipPart minPayoutSat a n).2.2 := by
  unfold clipPart
  split <;> dsimp only <;> omega

theorem clipPart_mono {minPayoutSat n n' : Int} {a : String} (hn : 0 ≤ n)
    (h : n ≤ n') :
    (clipPart minPayoutSat a n).2.1 ≤ (clipPart minPayoutSat a n').2.1 ∧
      (clipPart minPayoutSat a n).2.1 + (clipPart minPayoutSat a n).2.2 ≤
        (clipPart minPayoutSat a n').2.1 + (clipPart minPayoutSat a n').2.2 := by
  unfold clipPart
  split <;> split <;> dsimp only <;> omega

theorem quota_nonneg {f : String → ℚ} {s : Finset String} {n : Int}
    (hf : ∀ a, 0 ≤ f a) (hn : 0 < n) (a : String) : 0 ≤ quota f s n a := by
  refine mul_nonneg (div_nonneg (hf a) (Finset.sum_nonneg fun b _ => hf b)) ?_
  exact_mod_cast hn.le

theorem part_quota_nonneg {f : String → ℚ} {s : Finset String} {n : Int}
    (hf : ∀ a, 0 ≤ f a) (hn : 0 < n) (a : String) :
    0 ≤ part s (quota f s n) n a := by
  have hfloor := Int.floor_nonneg.2 (quota_nonneg (s := s) hf hn a)
  rcases part_cases s (quota f s n) n a with ⟨_, hpart⟩ | ⟨_, hpart⟩ <;> omega

/-- The part of an address grows with its weight. -/
theorem part_quota_mono {f g : String → ℚ} {s : Finset String} {n : Int}
    {a : String} (ha : a ∈ s) (hf : ∀ b, 0 ≤ f b)
    (hpos : 0 < ∑ b ∈ s, f b) (hn : 0 < n) (hup : f a ≤ g a)
    (hsame : ∀ b, b ≠ a → g b = f b) :
    part s (quota f s n) n a ≤ part s (quota g s n) n a := by
  have hn' : (0 : ℚ) < n := by exact_mod_cast hn
  -- The sum of the weights grows by what the one weight grows.
  have hsum : ∑ b ∈ s, g b = ∑ b ∈ s, f b + (g a - f a) := by
    rw [← Finset.add_sum_erase s f ha, ← Finset.add_sum_erase s g ha,
      Finset.sum_congr rfl fun b hb => hsame b (Finset.ne_of_mem_erase hb)]
    ring
  have hpos' : 0 < ∑ b ∈ s, g b := by linarith
  refine part_mono (sum_quota hpos.ne') (sum_quota hpos'.ne') ha ?_ ?_
  · refine mul_le_mul_of_nonneg_right ?_ hn'.le
    have hle : f a ≤ ∑ b ∈ s, f b := Finset.single_le_sum (fun b _ => hf b) ha
    rw [div_le_div_iff₀ hpos hpos', hsum]
    nlinarith
  · intro b _ hba
    refine mul_le_mul_of_nonneg_right ?_ hn'.le
    rw [hsame b hba]
    refine div_le_div_of_nonneg_left (hf b) hpos ?_
    linarith

section Added

variable {shares extra shares' : List PplnsShareEntry} {a : String}

theorem shareWork_append (b : String) :
    shareWork (shares ++ extra) b = shareWork shares b + shareWork extra b := by
  unfold shareWork
  rw [List.filter_append, List.map_append, List.sum_append]

theorem shareWork_perm (h : shares'.Perm shares) (b : String) :
    shareWork shares' b = shareWork shares b :=
  ((h.filter _).map _).sum_eq

theorem addresses_perm (h : shares'.Perm shares) :
    addresses shares' = addresses shares :=
  List.toFinset_eq_of_perm _ _ (h.map _)

/-- More work for an address does not lower what it receives, nor what it is
paid. -/
theorem received_mono (hnonneg : ∀ x ∈ shares, 0 ≤ x.difficulty)
    (hextra : ∀ x ∈ extra, x.payoutAddress = a ∧ 0 < x.difficulty)
    (hshares : shares'.Perm (shares ++ extra))
    (block : FoundBlock) (networkDifficulty : ℚ) (grossReward : Int)
    (settings : PayoutSettings) (dustBalances : List (String × Int)) :
    let plan := buildPayoutPlan block networkDifficulty grossReward settings
      dustBalances shares
    let plan' := buildPayoutPlan block networkDifficulty grossReward settings
      dustBalances shares'
    (received plan a).1 ≤ (received plan' a).1 ∧
      (received plan a).1 + (received plan a).2 ≤
        (received plan' a).1 + (received plan' a).2 := by
  intro plan plan'
  have hnonneg' : ∀ x ∈ shares', 0 ≤ x.difficulty := by
    intro x hx
    rcases List.mem_append.1 (hshares.mem_iff.1 hx) with hx | hx
    · exact hnonneg x hx
    · exact (hextra x hx).2.le
  have hother : ∀ b, b ≠ a → shareWork extra b = 0 := by
    intro b hb
    have hnil : extra.filter (·.payoutAddress == b) = [] := by
      rw [List.filter_eq_nil_iff]
      intro x hx heq
      exact hb ((eq_of_beq heq).symm.trans (hextra x hx).1)
    rw [shareWork, hnil]
    rfl
  have hwork : ∀ b, weight grossReward dustBalances shares' b =
      weight grossReward dustBalances shares b + shareWork extra b := by
    intro b
    rw [weight, weight, shareWork_perm hshares, shareWork_append]
    ring
  have hgain : 0 ≤ shareWork extra a :=
    shareWork_nonneg (fun x hx => (hextra x hx).2.le) a
  by_cases hbefore : a ∈ addresses shares ∧
      0 < ∑ b ∈ addresses shares, weight grossReward dustBalances shares b ∧
      0 < netReward grossReward settings
  · obtain ⟨ha, hweight, hnet⟩ := hbefore
    have hsame : addresses shares' = addresses shares := by
      rw [addresses_perm hshares]
      ext b
      simp only [mem_addresses, List.map_append, List.mem_append,
        or_iff_left_iff_imp]
      intro hb
      obtain ⟨x, hx, rfl⟩ := List.mem_map.1 hb
      rw [(hextra x hx).1]
      exact mem_addresses.1 ha
    have hweight' : 0 < ∑ b ∈ addresses shares', weight grossReward dustBalances
        shares' b := by
      rw [hsame]
      refine hweight.trans_le (Finset.sum_le_sum fun b _ => ?_)
      rw [hwork]
      exact le_add_of_nonneg_right
        (shareWork_nonneg (fun x hx => (hextra x hx).2.le) b)
    rw [received_of_mem ha hweight hnet,
      received_of_mem (hsame ▸ ha) hweight' hnet, hsame]
    refine clipPart_mono (part_quota_nonneg (weight_nonneg hnonneg) hnet a) ?_
    refine part_quota_mono ha (weight_nonneg hnonneg) hweight hnet ?_ ?_
    · rw [hwork]
      exact le_add_of_nonneg_right hgain
    · intro b hb
      rw [hwork, hother b hb, add_zero]
  · -- Nothing before, so it is enough that nothing is negative after.
    rw [received_eq_zero hbefore]
    by_cases hafter : a ∈ addresses shares' ∧
        0 < ∑ b ∈ addresses shares', weight grossReward dustBalances shares' b ∧
        0 < netReward grossReward settings
    · obtain ⟨ha, hweight, hnet⟩ := hafter
      rw [received_of_mem ha hweight hnet]
      exact clipPart_nonneg (part_quota_nonneg (weight_nonneg hnonneg') hnet a)
    · rw [received_eq_zero hafter]
      exact ⟨le_refl _, le_refl _⟩

end Added

/-- Three more units of work take an address from dust to a payout. -/
theorem received_mono_sample :
    let plan := buildPayoutPlan sampleBlock 1 100 smallFee [("lotus_a", 30)]
      sampleShares
    let plan' := buildPayoutPlan sampleBlock 1 100 smallFee [("lotus_a", 30)]
      (⟨5, 5, 2, "lotus_a", 3, 14⟩ :: sampleShares)
    received plan "lotus_a" = (0, 18) ∧ received plan' "lotus_a" = (41, 0) ∧
      (received plan "lotus_a").1 + (received plan "lotus_a").2 ≤
        (received plan' "lotus_a").1 + (received plan' "lotus_a").2 :=
  ⟨by decide +kernel, by decide +kernel,
    (@received_mono sampleShares [⟨5, 5, 2, "lotus_a", 3, 14⟩] _ "lotus_a"
      (by decide +kernel) (by decide +kernel)
      (List.perm_append_singleton _ _).symm sampleBlock 1 100 smallFee
      [("lotus_a", 30)]).2⟩

/-! ## The unit of the work -/

/-- The shares in another unit of work. -/
def scaled (c : ℚ) (shares : List PplnsShareEntry) : List PplnsShareEntry :=
  shares.map fun x => { x with difficulty := c * x.difficulty }

theorem addresses_scaled (c : ℚ) (shares : List PplnsShareEntry) :
    addresses (scaled c shares) = addresses shares := by
  unfold addresses scaled
  rw [List.map_map]
  rfl

theorem shareWork_scaled (c : ℚ) (shares : List PplnsShareEntry) (a : String) :
    shareWork (scaled c shares) a = c * shareWork shares a := by
  unfold shareWork scaled
  rw [List.filter_map, List.map_map, ← List.sum_map_mul_left]
  rfl

theorem scaled_one (shares : List PplnsShareEntry) : scaled 1 shares = shares := by
  unfold scaled
  conv_rhs => rw [← List.map_id shares]
  refine List.map_congr_left fun x _ => ?_
  rw [one_mul]
  rfl

/-- What moving a unit of `p` from `i` to `j` would gain, measured in the
weights `f`: there is nothing to gain below zero. -/
def gap (s : Finset String) (f : String → ℚ) (n : Int) (p : String → Int)
    (i j : String) : ℚ :=
  (f j - f i) * n - (1 + p j - p i) * ∑ a ∈ s, f a

theorem fair_quota_iff {s : Finset String} {f : String → ℚ} {n : Int}
    {p : String → Int} (hpos : 0 < ∑ a ∈ s, f a) :
    Fair s (quota f s n) p ↔ ∀ i ∈ s, ∀ j ∈ s,
      gap s f n p i j < 0 ∨ gap s f n p i j = 0 ∧ i < j := by
  have hgap : ∀ i j, quota f s n j - p j - (quota f s n i - p i) - 1 =
      gap s f n p i j / ∑ a ∈ s, f a := by
    intro i j
    rw [eq_div_iff hpos.ne', gap]
    unfold quota
    field_simp
    ring
  have hlt : ∀ i j, quota f s n j - p j - (quota f s n i - p i) < 1 ↔
      gap s f n p i j < 0 := by
    intro i j
    rw [← sub_neg, hgap, div_lt_iff₀ hpos, zero_mul]
  have heq : ∀ i j, quota f s n j - p j - (quota f s n i - p i) = 1 ↔
      gap s f n p i j = 0 := by
    intro i j
    rw [← sub_eq_zero, hgap, div_eq_zero_iff, or_iff_left hpos.ne']
  unfold Fair
  simp only [hlt, heq]

/-- The gap of a sum of weights, one of them in another unit. -/
theorem gap_scaled (s : Finset String) (c : ℚ) (w b : String → ℚ) (n : Int)
    (p : String → Int) (i j : String) :
    gap s (fun a => c * w a + b a) n p i j =
      c * gap s w n p i j + gap s b n p i j := by
  unfold gap
  rw [Finset.sum_add_distrib, ← Finset.mul_sum]
  ring

/-- When a line stays below zero on the right of the origin. -/
theorem forall_line_neg_iff {x y : ℚ} {P : Prop} :
    (∀ c > 0, c * x + y < 0 ∨ c * x + y = 0 ∧ P) ↔
      x ≤ 0 ∧ y ≤ 0 ∧ (P ∨ x < 0 ∨ y < 0) := by
  constructor
  · intro h
    have hle : ∀ c > 0, c * x + y ≤ 0 := by
      intro c hc
      rcases h c hc with hlt | ⟨heq, _⟩
      · exact hlt.le
      · exact heq.le
    have hx : x ≤ 0 := by
      by_contra hx
      have hx := not_le.1 hx
      have hfar := hle (|y| / x + 1) (by positivity)
      rw [add_mul, div_mul_cancel₀ _ hx.ne'] at hfar
      have := neg_abs_le y
      linarith
    have hy : y ≤ 0 := by
      by_contra hy
      have hy := not_le.1 hy
      -- Near the origin the line is above half of `y`.
      have hnear := hle (y / (2 * (1 - x))) (div_pos hy (by linarith))
      have hbound : -(y / 2) ≤ y / (2 * (1 - x)) * x := by
        rw [div_mul_eq_mul_div, le_div_iff₀ (by linarith)]
        nlinarith
      linarith
    refine ⟨hx, hy, ?_⟩
    rcases h 1 one_pos with hlt | ⟨_, hP⟩
    · rcases hx.lt_or_eq with hx | rfl
      · exact Or.inr (Or.inl hx)
      · exact Or.inr (Or.inr (by linarith))
    · exact Or.inl hP
  · rintro ⟨hx, hy, hor⟩ c hc
    have hcx : c * x ≤ 0 := mul_nonpos_of_nonneg_of_nonpos hc.le hx
    rcases hor with hP | hx | hy
    · rcases (add_nonpos hcx hy).lt_or_eq with hlt | heq
      · exact Or.inl hlt
      · exact Or.inr ⟨heq, hP⟩
    · have := mul_neg_of_pos_of_neg hc hx
      exact Or.inl (by linarith)
    · exact Or.inl (by linarith)

/-- One division of `n` in whole satoshis suits the work alone and the dust
alone: no satoshi could be moved in favour of either.  Where a satoshi could
be moved without a change for both, the order of the addresses decides. -/
def RoundsAlike (s : Finset String) (w b : String → ℚ) (n : Int) : Prop :=
  ∃ p : String → Int, ∑ a ∈ s, p a = n ∧ ∀ i ∈ s, ∀ j ∈ s,
    gap s w n p i j ≤ 0 ∧ gap s b n p i j ≤ 0 ∧
      (i < j ∨ gap s w n p i j < 0 ∨ gap s b n p i j < 0)

/-- The parts are the same in all units exactly when one division suits both
kinds of weight. -/
theorem parts_alike_iff {s : Finset String} {w b : String → ℚ} {n : Int}
    (hpos : ∀ c > 0, 0 < ∑ a ∈ s, (c * w a + b a)) :
    (∀ c > 0, ∀ a ∈ s, part s (quota (fun a => c * w a + b a) s n) n a =
        part s (quota (fun a => 1 * w a + b a) s n) n a) ↔
      RoundsAlike s w b n := by
  have hfair : ∀ p : String → Int,
      (∀ c > 0, Fair s (quota (fun a => c * w a + b a) s n) p) ↔
        ∀ i ∈ s, ∀ j ∈ s, gap s w n p i j ≤ 0 ∧ gap s b n p i j ≤ 0 ∧
          (i < j ∨ gap s w n p i j < 0 ∨ gap s b n p i j < 0) := by
    intro p
    constructor
    · intro h i hi j hj
      refine forall_line_neg_iff.1 fun c hc => ?_
      have hgap := (fair_quota_iff (hpos c hc)).1 (h c hc) i hi j hj
      rwa [gap_scaled] at hgap
    · intro h c hc
      refine (fair_quota_iff (hpos c hc)).2 fun i hi j hj => ?_
      rw [gap_scaled]
      exact forall_line_neg_iff.2 (h i hi j hj) c hc
  constructor
  · intro h
    refine ⟨part s (quota (fun a => 1 * w a + b a) s n) n,
      sum_part (sum_quota (hpos 1 one_pos).ne'), (hfair _).1 fun c hc => ?_⟩
    intro i hi j hj
    rw [← h c hc i hi, ← h c hc j hj]
    exact fair_part s _ n i hi j hj
  · rintro ⟨p, hsum, hp⟩ c hc a ha
    have hunique : ∀ c > 0, p a =
        part s (quota (fun a => c * w a + b a) s n) n a := fun c hc =>
      eq_part_of_fair (sum_quota (hpos c hc).ne') hsum
        ((hfair p).2 hp c hc) a ha
    rw [← hunique c hc, ← hunique 1 one_pos]

section Unit

variable (block : FoundBlock) (networkDifficulty : ℚ) (grossReward : Int)
  (settings : PayoutSettings) (dustBalances : List (String × Int))
  (shares : List PplnsShareEntry)

/-- The weights of the shares in another unit: dust counts as before. -/
theorem triples_scaled (c : ℚ) :
    (buildPayoutPlan block networkDifficulty grossReward settings dustBalances
        (scaled c shares)).outputs.map PayoutOutput.triple =
      if 0 < ∑ a ∈ addresses shares, (c * shareWork shares a +
            dustBonus grossReward dustBalances a) ∧
          0 < netReward grossReward settings then
        (addresses shares).sort.map fun a => clipPart settings.minPayoutSat a
          (part (addresses shares) (quota (fun a => c * shareWork shares a +
              dustBonus grossReward dustBalances a) (addresses shares)
              (netReward grossReward settings))
            (netReward grossReward settings) a)
      else [] := by
  have hweight : weight grossReward dustBalances (scaled c shares) = fun a =>
      c * shareWork shares a + dustBonus grossReward dustBalances a := by
    funext a
    rw [weight, shareWork_scaled]
  rw [triples_eq, addresses_scaled, hweight]

/-- Negative work outweighs the dust in a large unit only, so the outputs
change with the unit. -/
theorem shareWork_nonneg_of_triples (hnet : 0 < netReward grossReward settings)
    (hdust : 0 < ∑ a ∈ addresses shares, dustBonus grossReward dustBalances a)
    (h : ∀ c > 0,
      (buildPayoutPlan block networkDifficulty grossReward settings dustBalances
          (scaled c shares)).outputs.map PayoutOutput.triple =
        (buildPayoutPlan block networkDifficulty grossReward settings
          dustBalances shares).outputs.map PayoutOutput.triple) :
    0 ≤ ∑ a ∈ addresses shares, shareWork shares a := by
  by_contra hneg
  have hneg := not_le.1 hneg
  have hne : (addresses shares).sort ≠ [] := by
    intro hnil
    have hempty : addresses shares = ∅ := by
      rw [← Finset.sort_toFinset (addresses shares) (· ≤ ·), hnil]
      rfl
    rw [hempty, Finset.sum_empty] at hdust
    exact lt_irrefl _ hdust
  have hsum : ∀ c : ℚ, ∑ a ∈ addresses shares, (c * shareWork shares a +
      dustBonus grossReward dustBalances a) =
      c * ∑ a ∈ addresses shares, shareWork shares a +
        ∑ a ∈ addresses shares, dustBonus grossReward dustBalances a := by
    intro c
    rw [Finset.sum_add_distrib, Finset.mul_sum]
  -- In a small unit there are outputs, and in a large one there are none.
  set S := ∑ a ∈ addresses shares, shareWork shares a with hS
  set B := ∑ a ∈ addresses shares, dustBonus grossReward dustBalances a with hB
  have hsmall := h (B / (-S) / 2) (by
    have := neg_pos.2 hneg
    positivity)
  have hlarge := h (B / (-S)) (div_pos hdust (neg_pos.2 hneg))
  have hS₀ : S ≠ 0 := hneg.ne
  rw [← hlarge, triples_scaled, triples_scaled, hsum, hsum, if_pos, if_neg]
    at hsmall
  · exact hne (List.map_eq_nil_iff.1 hsmall)
  · rintro ⟨hpos, _⟩
    have hzero : B / -S * S + B = 0 := by
      field_simp
      ring
    rw [hzero] at hpos
    exact lt_irrefl _ hpos
  · refine ⟨?_, hnet⟩
    have hhalf : B / -S / 2 * S + B = B / 2 := by
      field_simp
      ring
    rw [hhalf]
    linarith

/-- Without dust the unit cancels in the quotas. -/
theorem triples_scaled_of_no_dust {c : ℚ} (hc : 0 < c)
    (hbonus : ∀ a ∈ addresses shares,
      dustBonus grossReward dustBalances a = 0) :
    (buildPayoutPlan block networkDifficulty grossReward settings dustBalances
        (scaled c shares)).outputs.map PayoutOutput.triple =
      (buildPayoutPlan block networkDifficulty grossReward settings
        dustBalances shares).outputs.map PayoutOutput.triple := by
  have hsum : ∀ c : ℚ, ∑ a ∈ addresses shares, (c * shareWork shares a +
      dustBonus grossReward dustBalances a) =
      c * ∑ a ∈ addresses shares, shareWork shares a := by
    intro c
    rw [Finset.sum_add_distrib, Finset.sum_eq_zero hbonus, add_zero,
      Finset.mul_sum]
  conv_rhs => rw [← scaled_one shares]
  rw [triples_scaled, triples_scaled, hsum, hsum, one_mul]
  simp only [mul_pos_iff_of_pos_left hc]
  split
  · refine List.map_congr_left fun a ha => congrArg _ ?_
    refine part_congr (fun i hi => ?_) ((Finset.mem_sort _).1 ha)
    unfold quota
    dsimp only
    rw [hsum, hsum, hbonus i hi, add_zero, add_zero, one_mul, one_mul,
      mul_div_mul_left _ _ hc.ne']
  · rfl

/-- With dust, and work that is not negative, the outputs are the parts in
every unit. -/
theorem triples_scaled_iff (hnet : 0 < netReward grossReward settings)
    (hdust : 0 < ∑ a ∈ addresses shares, dustBonus grossReward dustBalances a)
    (hwork : 0 ≤ ∑ a ∈ addresses shares, shareWork shares a) :
    (∀ c > 0, (buildPayoutPlan block networkDifficulty grossReward settings
          dustBalances (scaled c shares)).outputs.map PayoutOutput.triple =
        (buildPayoutPlan block networkDifficulty grossReward settings
          dustBalances shares).outputs.map PayoutOutput.triple) ↔
      RoundsAlike (addresses shares) (shareWork shares)
        (dustBonus grossReward dustBalances)
        (netReward grossReward settings) := by
  have hpos : ∀ c > 0, 0 < ∑ a ∈ addresses shares, (c * shareWork shares a +
      dustBonus grossReward dustBalances a) := by
    intro c hc
    rw [Finset.sum_add_distrib, ← Finset.mul_sum]
    exact add_pos_of_nonneg_of_pos (mul_nonneg hc.le hwork) hdust
  rw [← parts_alike_iff hpos]
  refine forall₂_congr fun c hc => ?_
  conv_lhs => rhs; rw [← scaled_one shares]
  rw [triples_scaled, triples_scaled, if_pos ⟨hpos c hc, hnet⟩,
    if_pos ⟨hpos 1 one_pos, hnet⟩, List.map_inj_left]
  simp only [Finset.mem_sort]
  exact forall₂_congr fun a _ => ⟨clipPart_inj, congrArg _⟩

/-- When the outputs do not depend on the unit of the work: there is nothing
to share out, or no address of the window has dust, or one division suits the
work and the dust. -/
theorem unitFree_iff :
    (∀ c > 0,
      (buildPayoutPlan block networkDifficulty grossReward settings dustBalances
          (scaled c shares)).outputs.map PayoutOutput.triple =
        (buildPayoutPlan block networkDifficulty grossReward settings
          dustBalances shares).outputs.map PayoutOutput.triple) ↔
      netReward grossReward settings ≤ 0 ∨
      (∀ a ∈ addresses shares, dustBonus grossReward dustBalances a = 0) ∨
      RoundsAlike (addresses shares) (shareWork shares)
        (dustBonus grossReward dustBalances)
        (netReward grossReward settings) := by
  by_cases hnet : netReward grossReward settings ≤ 0
  · refine iff_of_true (fun c _ => ?_) (Or.inl hnet)
    have hnot : ∀ p : Prop, ¬ (p ∧ 0 < netReward grossReward settings) :=
      fun p h => absurd h.2 (not_lt.2 hnet)
    rw [triples_scaled, triples_eq, if_neg (hnot _), if_neg (hnot _)]
  by_cases hbonus : ∀ a ∈ addresses shares,
      dustBonus grossReward dustBalances a = 0
  · refine iff_of_true (fun c hc => ?_) (Or.inr (Or.inl hbonus))
    exact triples_scaled_of_no_dust _ _ _ _ _ _ hc hbonus
  rw [or_iff_right hnet, or_iff_right hbonus]
  have hnet := not_le.1 hnet
  push Not at hbonus
  obtain ⟨a, ha, hne⟩ := hbonus
  have hdust : 0 < ∑ a ∈ addresses shares,
      dustBonus grossReward dustBalances a := by
    refine (Finset.sum_pos_iff_of_nonneg fun b _ => dustBonus_nonneg _ _ _).2
      ⟨a, ha, ?_⟩
    exact lt_of_le_of_ne (dustBonus_nonneg _ _ _) (Ne.symm hne)
  constructor
  · intro h
    have hwork := shareWork_nonneg_of_triples _ _ _ _ _ _ hnet hdust h
    exact (triples_scaled_iff _ _ _ _ _ _ hnet hdust hwork).1 h
  · intro h
    refine (triples_scaled_iff _ _ _ _ _ _ hnet hdust ?_).2 h
    -- The division suits the work of an address with itself.
    obtain ⟨p, _, hp⟩ := h
    have hself := (hp a ha a ha).1
    unfold gap at hself
    linarith

end Unit

/-- Two addresses with the same work, one of them with dust.  In a smaller
unit the dust counts for less. -/
theorem unitFree_fails :
    let settings : PayoutSettings :=
      { feeBps := 0, feeAddress := none, minPayoutSat := 1, nMultiplier := 2 }
    let shares : List PplnsShareEntry :=
      [⟨1, 1, 1, "lotus_a", 1, 10⟩, ⟨2, 2, 2, "lotus_b", 1, 11⟩]
    (buildPayoutPlan sampleBlock 1 100 settings [("lotus_a", 100)]
        shares).outputs.map PayoutOutput.triple =
      [("lotus_a", 67, 0), ("lotus_b", 33, 0)] ∧
    (buildPayoutPlan sampleBlock 1 100 settings [("lotus_a", 100)]
        (scaled 1000 shares)).outputs.map PayoutOutput.triple =
      [("lotus_a", 50, 0), ("lotus_b", 50, 0)] :=
  ⟨by decide +kernel, by decide +kernel⟩

end StratumServer
