import KeyConsole.Proofs.Keyboard.Specificity

/-!
# Proofs.Keyboard.CanonicalPacking: one packed form for each choice of keys

The modifiers that are given with a base key count as often as they are given, in whatever order, and only the first
three do.  These and the base key decide on the packed combination, and it gives them back.  The exchanges that bring
modifiers into descending order only permute them, so all of this is about modifiers in use.
-/

namespace KeyConsole.Keyboard.Combo

variable {c c' : Combo} {base mod1 mod2 mod3 k : Key} {mods : List Key}

/-- The modifiers that count among those given: the first three, but for unused places. -/
def counted (mods : List Key) : List Key := (mods.take 3).filter (· ≠ .unknown)

/-! ### Exchanges -/

theorem exchange_perm (a b : Key) : [(exchange a b).1, (exchange a b).2].Perm [a, b] := by
  unfold exchange
  split
  · exact .swap a b []
  · exact .refl _

/-- Three exchanges leave the same three keys. -/
theorem descending_perm (a b c : Key) :
    [(descending a b c).1, (descending a b c).2.1, (descending a b c).2.2].Perm [a, b, c] := by
  have hfirst := (exchange_perm a b).append_right [c]
  have hsecond := (exchange_perm (exchange a b).2 c).cons (exchange a b).1
  have hthird := (exchange_perm (exchange a b).1 (exchange (exchange a b).2 c).1).append_right
    [(exchange (exchange a b).2 c).2]
  exact hthird.trans (hsecond.trans hfirst)

theorem modifiers_perm (h : pack? base mod1 mod2 mod3 = some c) : c.modifiers.Perm [mod1, mod2, mod3] := by
  have hperm := descending_perm mod1 mod2 mod3
  rw [← (slot_of_pack? h).2] at hperm
  exact hperm

/-! ### Given modifiers -/

/-- Places without a modifier are unused, so it is the same to leave them out. -/
theorem filter_places (mods : List Key) :
    [mods[0]?.getD .unknown, mods[1]?.getD .unknown, mods[2]?.getD .unknown].filter (· ≠ .unknown)
      = counted mods := by
  match mods with
  | [] => rfl
  | [a] => simp [counted, List.filter_cons]
  | [a, b] => simp [counted, List.filter_cons]
  | a :: b :: c :: rest => simp [counted, List.filter_cons]

theorem exists_ofModifiers? (hbase : base ≠ .unknown) (mods : List Key) : ∃ c, ofModifiers? base mods = some c :=
  ⟨_, pack?_known hbase⟩

/-- A combination uses the modifiers that count among those given, each as often. -/
theorem used_perm (h : ofModifiers? base mods = some c) : c.used.Perm (counted mods) := by
  rw [← filter_places mods]
  exact (modifiers_perm h).filter _

theorem packed_ofModifiers? (h : ofModifiers? base mods = some c) : c.Packed := ⟨_, _, _, _, h⟩

theorem base_ofModifiers? (h : ofModifiers? base mods = some c) : c.base = base := (slot_of_pack? h).1

/-- What is given is in use in descending order, in front of the unused places. -/
theorem modifiers_ofModifiers? (h : ofModifiers? base mods = some c) :
    c.modifiers = (counted mods).mergeSort (fun a b => decide (b.code ≤ a.code))
      ++ List.replicate (3 - (counted mods).length) .unknown := by
  have hpacked := packed_ofModifiers? h
  have hranked : ((counted mods).mergeSort fun a b => decide (b.code ≤ a.code)).Pairwise
      fun a b => decide (b.code ≤ a.code) :=
    List.pairwise_mergeSort (fun a b c hab hbc => by simp only [decide_eq_true_eq] at hab hbc ⊢; omega)
      (fun a b => by simp only [Bool.or_eq_true, decide_eq_true_eq]; omega) _
  have hsorted := hranked.imp fun h => of_decide_eq_true h
  have hused : c.used = (counted mods).mergeSort fun a b => decide (b.code ≤ a.code) :=
    Key.eq_of_descending ((used_perm h).trans (List.mergeSort_perm _ _).symm) hpacked.used_descending hsorted
  rw [hpacked.modifiers_eq, (used_perm h).length_eq, hused]

/-- Two combinations of one base key are equal if they use the same modifiers, each as often. -/
theorem eq_of_used_perm (h : c.Packed) (h' : c'.Packed) (hbase : c.base = c'.base) (hperm : c.used.Perm c'.used) :
    c = c' := by
  have hused : c.used = c'.used := Key.eq_of_descending hperm h.used_descending h'.used_descending
  refine eq_of_modifiers_of_base h h' ?_ hbase
  rw [h.modifiers_eq, h'.modifiers_eq, hused]

theorem mem_keys_ofModifiers? (h : ofModifiers? base mods = some c) : k ∈ c.keys ↔ k ∈ base :: counted mods := by
  rw [(packed_ofModifiers? h).mem_keys, base_ofModifiers? h, (used_perm h).mem_iff, List.mem_cons]

/-! ### Order -/

theorem isGE_order : (c.order c').isGE ↔ c'.packed ≤ c.packed := Std.isGE_compare

theorem order_eq_gt : c.order c' = .gt ↔ c'.packed < c.packed := Std.compare_eq_gt

/-- More modifiers, with the same base key, make a combination greater, and the same ones leave it as it is. -/
theorem order_of_subperm (h : c.Packed) (h' : c'.Packed) (hbase : c.base = c'.base) (hsub : c'.used.Subperm c.used) :
    (c.order c').isGE ∧ (c'.used.length < c.used.length → c.order c' = .gt) := by
  by_cases hmods : c'.modifiers = c.modifiers
  · obtain rfl := eq_of_modifiers_of_base h' h hmods hbase.symm
    exact ⟨isGE_order.mpr (UInt32.le_refl _), fun hmore => absurd hmore (Nat.lt_irrefl _)⟩
  · have hlt : c'.packed < c.packed := (packed_lt_iff h' h).mpr (.inl (modifiers_lt_of_subperm h' h hsub hmods))
    exact ⟨isGE_order.mpr (UInt32.le_of_lt hlt), fun _ => order_eq_gt.mpr hlt⟩

/-- Whatever modifiers are given with a base key that is known, they pack.  The combination gives back the base key
and the modifiers that count, in descending order and with unused places last, and it is the same for other keys just
if their base key is and the modifiers that count are, each as often.  It covers another one just if every key of that
one, base key or modifier, is one of its own.  With one base key it is at least as great as a combination whose
modifiers are among its own, each as often, and greater if it has more of them.  Covering is transitive. -/
theorem packed_combinations_are_canonical {base' : Key} (hbase : base ≠ .unknown) (hbase' : base' ≠ .unknown)
    (mods mods' : List Key) :
    (∃ c c', ofModifiers? base mods = some c ∧ ofModifiers? base' mods' = some c' ∧
      c.base = base ∧
      c.modifiers = (counted mods).mergeSort (fun a b => decide (b.code ≤ a.code))
        ++ List.replicate (3 - (counted mods).length) .unknown ∧
      (c = c' ↔ base = base' ∧ (counted mods).Perm (counted mods')) ∧
      (c.covers c' ↔ ∀ k ∈ base' :: counted mods', k ∈ base :: counted mods) ∧
      (base = base' → (counted mods').Subperm (counted mods) →
        (c.order c').isGE ∧ ((counted mods').length < (counted mods).length → c.order c' = .gt))) ∧
    (∀ a b : Combo, a.covers b ↔ ∀ k ∈ b.keys, k ∈ a.keys) ∧
    ∀ a b d : Combo, a.covers b → b.covers d → a.covers d := by
  obtain ⟨c, hc⟩ := exists_ofModifiers? hbase mods
  obtain ⟨c', hc'⟩ := exists_ofModifiers? hbase' mods'
  have hpacked := packed_ofModifiers? hc
  have hpacked' := packed_ofModifiers? hc'
  have hused := used_perm hc
  have hused' := used_perm hc'
  refine ⟨⟨c, c', hc, hc', base_ofModifiers? hc, modifiers_ofModifiers? hc, ⟨?same, ?equal⟩, ?covers, ?order⟩,
    fun _ _ => covers_iff, ?transitive⟩
  case same =>
    rintro rfl
    exact ⟨(base_ofModifiers? hc).symm.trans (base_ofModifiers? hc'), hused.symm.trans hused'⟩
  case equal =>
    rintro ⟨rfl, hperm⟩
    exact eq_of_used_perm hpacked hpacked' ((base_ofModifiers? hc).trans (base_ofModifiers? hc').symm)
      (hused.trans (hperm.trans hused'.symm))
  case covers =>
    rw [covers_iff]
    exact forall_congr' fun k => by rw [mem_keys_ofModifiers? hc, mem_keys_ofModifiers? hc']
  case order =>
    rintro rfl hsub
    rw [← hused.length_eq, ← hused'.length_eq]
    exact order_of_subperm hpacked hpacked' ((base_ofModifiers? hc).trans (base_ofModifiers? hc').symm)
      ((hused'.subperm.trans hsub).trans hused.symm.subperm)
  case transitive =>
    intro a b d hab hbd
    exact covers_iff.mpr fun k hk => mem_keys_of_covers hab (mem_keys_of_covers hbd hk)

/-- A modifier that is given twice makes a greater combination, although both have the same keys. -/
theorem packed_combinations_are_canonical_shift_twice :
    Key.keyA ≠ .unknown ∧ ∃ c c', ofModifiers? .keyA [.shift, .control, .shift, .alt] = some c ∧
      ofModifiers? .keyA [.unknown, .control, .shift] = some c' ∧
      c.modifiers = [.shift, .shift, .control] ∧ c ≠ c' ∧ c.covers c' ∧ c'.covers c ∧ c.order c' = .gt := by
  have hknown : Key.keyA ≠ .unknown := by decide
  have hsorted : ([.shift, .control, .shift].mergeSort fun a b : Key => decide (b.code ≤ a.code))
      = [.shift, .shift, .control] := by
    simp [List.mergeSort, List.MergeSort.Internal.splitInTwo, Key.code, Key.ctorIdx]
  have hsub : (counted [.unknown, .control, .shift]).Subperm (counted [.shift, .control, .shift, .alt]) :=
    (List.sublist_cons_self Key.shift [.control, .shift]).subperm
  obtain ⟨⟨c, c', hc, hc', -, hmods, heq, hcovers, horder⟩, -, -⟩ :=
    packed_combinations_are_canonical hknown hknown [.shift, .control, .shift, .alt] [.unknown, .control, .shift]
  obtain ⟨⟨d', d, hd', hd, -, -, -, hcovered, -⟩, -, -⟩ :=
    packed_combinations_are_canonical hknown hknown [.unknown, .control, .shift] [.shift, .control, .shift, .alt]
  obtain rfl : c = d := Option.some.inj (hc.symm.trans hd)
  obtain rfl : c' = d' := Option.some.inj (hc'.symm.trans hd')
  refine ⟨hknown, c, c', hc, hc', hmods.trans (congrArg (· ++ []) hsorted), ?_, hcovers.mpr (by decide),
    hcovered.mpr (by decide), (horder rfl hsub).2 (by decide)⟩
  exact fun hsame => absurd (heq.mp hsame).2 (by decide)

end KeyConsole.Keyboard.Combo
