import KeyConsole.Proofs.Dispatch.HeldBindings

/-!
# Proofs.Dispatch.LostKeys: what goes up when keys are lost

A release takes keys away: its own, and the modifiers that go off with the flags and are not held by their own keys.
The bindings that are down, are no toggles and use one of these keys go up, and nothing else becomes of the table.
-/

namespace KeyConsole.Keyboard.Flags

theorem set_has (f : Flags) (k : Key) : f.set k (f.has k) = f := by
  unfold set has
  split <;> rfl

/-- What flags stand for decides on them. -/
theorem eq_of_has {f g : Flags} (h : ∀ k ∈ keys, f.has k = g.has k) : f = g := by
  have halt : f.alt = g.alt := h .alt (by simp [keys])
  have hcontrol : f.control = g.control := h .control (by simp [keys])
  have hshift : f.shift = g.shift := h .shift (by simp [keys])
  have hsystem : f.system = g.system := h .lSystem (by simp [keys])
  cases f
  cases g
  simp_all

end KeyConsole.Keyboard.Flags

namespace KeyConsole.Dispatch

open Keyboard (Key Event Flags)

/-! ### Bindings that lose keys -/

namespace Binding

variable {b : Binding} {gone more : Key → Bool}

/-- The binding is down and goes up when it is released. -/
def isHeld (b : Binding) : Bool := b.isDown && decide (b.kind ≠ .toggle)

/-- The binding after its release. -/
def released (b : Binding) : Binding := if b.isHeld then { b with state := .up } else b

/-- The binding after some keys have been lost: released, if it uses one of them. -/
def deprived (gone : Key → Bool) (b : Binding) : Binding := if b.combo.keys.any gone then b.released else b

theorem isHeld_iff : b.isHeld ↔ b.state = .down ∧ b.kind ≠ .toggle := by
  simp [isHeld, isDown]

@[simp] theorem atRest_released (b : Binding) : b.released.atRest = b.atRest := by
  unfold released
  split <;> rfl

@[simp] theorem id_released (b : Binding) : b.released.id = b.id := (congrArg id b.atRest_released :)

@[simp] theorem combo_released (b : Binding) : b.released.combo = b.combo := (congrArg combo b.atRest_released :)

theorem released_of_not_isHeld (h : ¬b.isHeld) : b.released = b := if_neg h

@[simp] theorem released_released (b : Binding) : b.released.released = b.released := by
  by_cases h : b.isHeld
  · have hup : ¬b.released.isHeld := by
      rw [released, if_pos h]
      simp [isHeld, isDown]
    exact released_of_not_isHeld hup
  · rw [released_of_not_isHeld h, released_of_not_isHeld h]

@[simp] theorem id_deprived (gone : Key → Bool) (b : Binding) : (b.deprived gone).id = b.id := by
  unfold deprived
  split
  · exact b.id_released
  · rfl

theorem deprived_none (b : Binding) : b.deprived (fun _ => false) = b := by
  simp [deprived]

/-- Keys lost one after the other are lost together. -/
theorem deprived_deprived : (b.deprived gone).deprived more = b.deprived fun k => gone k || more k := by
  have hany : (b.combo.keys.any fun k => gone k || more k) = (b.combo.keys.any gone || b.combo.keys.any more) := by
    grind
  by_cases hgone : b.combo.keys.any gone <;> by_cases hmore : b.combo.keys.any more <;>
    simp [deprived, hany, hgone, hmore]

end Binding

namespace Dispatcher

variable {d d' d'' : Dispatcher} {id : Nat} {k : Key} {gone more : Key → Bool}

/-- Some keys have been lost, and nothing else has become of the table. -/
def Loses (gone : Key → Bool) (d d' : Dispatcher) : Prop :=
  d'.table.bindings = d.table.bindings.map (Binding.deprived gone)

namespace Loses

theorem none (h : d'.table = d.table) : Loses (fun _ => false) d d' := by
  unfold Loses
  rw [h, funext Binding.deprived_none, List.map_id']

theorem trans (h : Loses gone d d') (h' : Loses more d' d'') : Loses (fun k => gone k || more k) d d'' := by
  unfold Loses at h h' ⊢
  rw [h', h, List.map_map]
  exact List.map_congr_left fun b _ => Binding.deprived_deprived

theorem congr (h : Loses gone d d') (heq : ∀ k, gone k = more k) : Loses more d d' := funext heq ▸ h

/-- What has become of the binding with an id. -/
theorem get? (h : Loses gone d d') (id : Nat) :
    d'.table.get? id = (d.table.get? id).map (Binding.deprived gone) := by
  unfold Loses at h
  unfold Table.get?
  rw [h, List.find?_map]
  simp only [Function.comp_def, Binding.id_deprived]

end Loses

/-! ### Releases -/

theorem releaseBinding_bindings (hd : d.table.Distinct) (id : Nat) :
    (d.releaseBinding id).table.bindings = d.table.bindings.map fun b => if b.id = id then b.released else b := by
  have hkept : (∀ b ∈ d.table.bindings, b.id = id → ¬b.isHeld) →
      d.table.bindings = d.table.bindings.map fun b => if b.id = id then b.released else b := by
    intro hnone
    conv_lhs => rw [← List.map_id' d.table.bindings]
    refine List.map_congr_left fun b hb => ?_
    split
    · rename_i hid
      exact (Binding.released_of_not_isHeld (hnone b hb hid)).symm
    · rfl
  unfold releaseBinding
  cases h : d.table.get? id with
  | none => exact hkept fun b hb hid => absurd hid (Table.get?_eq_none_iff.mp h b hb)
  | some c =>
    obtain ⟨hc, hcid⟩ := Table.get?_mem h
    have honly : ∀ b ∈ d.table.bindings, b.id = id → b = c := fun b hb hid => hd.eq_of_id hb hc (hid.trans hcid.symm)
    simp only
    split
    · rename_i hstays
      refine hkept fun b hb hid hheld => ?_
      rw [honly b hb hid, Binding.isHeld_iff] at hheld
      simp [hheld] at hstays
    · rename_i hgoes
      rw [(relayed_setState h (by simp)).table]
      simp only [note]
      rw [Table.setState_bindings hd]
      refine List.map_congr_left fun b hb => ?_
      by_cases hid : b.id = id
      · have hheld : c.isHeld := by
          rw [Binding.isHeld_iff]
          cases hstate : c.state <;> simp_all
        rw [honly b hb hid, Binding.turned_self hcid, if_pos hcid, Binding.released, if_pos hheld]
      · rw [Binding.turned_other hid, if_neg hid]

theorem releaseAll_bindings (hd : d.table.Distinct) (ids : List Nat) :
    (ids.foldl releaseBinding d).table.bindings
      = d.table.bindings.map fun b => if b.id ∈ ids then b.released else b := by
  induction ids generalizing d with
  | nil => simp
  | cons id ids ih =>
    rw [List.foldl_cons, ih ((moved_releaseBinding d id).alike.distinct hd), releaseBinding_bindings hd, List.map_map]
    refine List.map_congr_left fun b _ => ?_
    by_cases hid : b.id = id <;> by_cases hids : b.id ∈ ids <;> simp_all

/-- The release of a key is its loss, since what is held is live and fully pressed. -/
theorem loses_releaseKey (hs : d.Sound) (hd : d.Settled) (k : Key) :
    Loses (fun j => decide (j = k)) d (releaseKey k d).2 := by
  refine (releaseAll_bindings hs.distinct _).trans (List.map_congr_left fun b hb => ?_)
  have hany : (b.combo.keys.any fun j => decide (j = k)) = b.combo.contains k := by
    rw [Bool.eq_iff_iff, contains_iff]
    simp
  rw [Binding.deprived, hany]
  by_cases hheld : b.isHeld
  · obtain ⟨hstate, htoggle⟩ := Binding.isHeld_iff.mp hheld
    obtain ⟨hcommand, hlive, hpressed⟩ := hd b hb (Binding.isDown_iff.mpr hstate)
    have hkind : b.kind = .state := by
      cases hkind : b.kind with
      | state => rfl
      | toggle => exact absurd hkind htoggle
      | command => exact absurd hkind hcommand
    refine if_congr ?_ rfl rfl
    rw [List.mem_map]
    refine ⟨?_, fun hk => ⟨b, List.mem_filter.mpr ⟨hb, by simp [hlive, hk, hpressed hkind]⟩, rfl⟩⟩
    rintro ⟨c, hc, hid⟩
    obtain ⟨hmem, hc⟩ := List.mem_filter.mp hc
    obtain rfl := hs.distinct.eq_of_id hmem hb hid
    simp only [Bool.and_eq_true] at hc
    exact hc.1.2
  · rw [Binding.released_of_not_isHeld hheld, ite_self, ite_self]

/-! ### Flags -/

/-- A modifier goes off with the flags and is not held by its own key. -/
def goesOff (flags : Flags) (d : Dispatcher) (k : Key) : Bool :=
  d.reported.has k && !flags.has k && !d.held.contains k

/-- A flag is taken over, and if it goes off, its key is lost. -/
theorem takeFlag_spec (hs : d.Sound) (hd : d.Settled) (flags : Flags) (k : Key) :
    Loses (fun j => decide (j = k) && d.goesOff flags j) d (takeFlag flags k d).2 ∧
      (takeFlag flags k d).2.held = d.held ∧
      (takeFlag flags k d).2.reported = d.reported.set k (flags.has k) := by
  have hlost : ∀ {gone : Key → Bool}, (∀ j, gone j = (decide (j = k) && d.goesOff flags k)) →
      ∀ j, gone j = (decide (j = k) && d.goesOff flags j) := by
    intro gone hgone j
    by_cases hj : j = k
    · rw [hgone, hj]
    · simp [hgone, hj]
  unfold takeFlag
  split_ifs with hsame hoff
  · have hgoes : d.goesOff flags k = false := by
      rw [goesOff, hsame]
      cases flags.has k <;> rfl
    exact ⟨(Loses.none rfl).congr (hlost fun j => by simp [hgoes]), rfl, by rw [← hsame, Flags.set_has]⟩
  · have hgoes : d.goesOff flags k = true := by
      unfold goesOff
      cases hreported : d.reported.has k <;> simp_all
    have hmoved := moved_releaseKey k d
    refine ⟨(loses_releaseKey hs hd k).congr (hlost fun j => by simp [hgoes]), hmoved.held, ?_⟩
    exact congrArg (fun reported : Flags => reported.set k (flags.has k)) hmoved.reported
  · have hgoes : d.goesOff flags k = false := by
      unfold goesOff
      cases hflag : flags.has k <;> simp_all
    exact ⟨(Loses.none rfl).congr (hlost fun j => by simp [hgoes]), rfl, rfl⟩

/-- Flags are taken over one by one, and what goes off is lost. -/
theorem takeFlags_spec (hs : d.Sound) (hd : d.Settled) (flags : Flags) :
    Loses (fun k => Flags.keys.contains k && d.goesOff flags k) d (takeFlags flags d).2 ∧
      (takeFlags flags d).2.held = d.held ∧ (takeFlags flags d).2.reported = flags := by
  suffices ∀ ks : List Key, ks ⊆ Flags.keys → ks.Nodup →
      let d' := ks.foldl (fun d k => (takeFlag flags k d).2) d
      Loses (fun k => ks.contains k && d.goesOff flags k) d d' ∧ d'.held = d.held ∧
        ∀ k, d'.reported.has k = if k ∈ ks then flags.has k else d.reported.has k by
    obtain ⟨hloses, hheld, hreported⟩ := this Flags.keys (List.Subset.refl _) (by decide)
    exact ⟨hloses, hheld, Flags.eq_of_has fun k hk => (hreported k).trans (if_pos hk)⟩
  intro ks
  induction ks generalizing d with
  | nil => exact fun _ _ => ⟨(Loses.none rfl).congr fun _ => rfl, rfl, fun _ => rfl⟩
  | cons k ks ih =>
    intro hks hnodup
    obtain ⟨hk, hks⟩ := List.cons_subset.mp hks
    obtain ⟨hnot, hnodup⟩ := List.nodup_cons.mp hnodup
    obtain ⟨hfirst, hheld, hreported⟩ := takeFlag_spec hs hd flags k
    obtain ⟨hrest, hheld', hreported'⟩ := ih (hs.keyed (keyed_alongReleases.takeFlag flags k d))
      (settled_takeFlag hs hd flags hk) hks hnodup
    refine ⟨(hfirst.trans hrest).congr fun j => ?_, hheld'.trans hheld, fun j => ?_⟩
    · rw [List.contains_cons]
      by_cases hj : j = k
      · simp [hj, hnot]
      · have hgoes : (takeFlag flags k d).2.goesOff flags j = d.goesOff flags j := by
          rw [goesOff, goesOff, hheld, hreported, Flags.has_set hk, if_neg hj]
        simp [hj, beq_eq_false_iff_ne.mpr hj, hgoes]
    · rw [List.foldl_cons, hreported', hreported, Flags.has_set hk]
      by_cases hj : j = k
      · simp [hj, hnot]
      · simp [hj]

/-! ### Key events -/

/-- The keys that a release takes away: its own, and the modifiers that were reported as held, are so no longer, and
are not held by their own keys. -/
def lostKeys (e : Event) (d : Dispatcher) (k : Key) : Bool :=
  decide (k = e.key) || Flags.keys.contains k && (d.reported.has k && !e.flags.has k
    && !(d.held.filter (· ≠ e.key)).contains k)

/-- A release takes its keys away, and nothing else becomes of the table. -/
theorem keyUp_spec {e : Event} (hs : d.Sound) (hd : d.Settled) (hkey : e.key ≠ .unknown) :
    Loses (d.lostKeys e) d (keyUp e d).2 ∧ (keyUp e d).2.held = d.held.filter (· ≠ e.key) ∧
      (keyUp e d).2.reported = e.flags := by
  have hasked := relayed_askHook e .up d
  have hrelayed := relayed_keyUp hkey d
  generalize (askHook e .up d).2 = asked at hasked hrelayed
  have hs' := hs.moved hasked.moved
  have hd' := hd.relayed hasked
  have hmoved := moved_releaseKey e.key asked
  obtain ⟨hflags, hheld, hreported⟩ := takeFlags_spec (hs'.keyed (keyed_unheld e.key asked))
    (settled_unheld hs' hd' e.key) e.flags
  have hloses : Loses (fun j => decide (j = e.key)) d (unheld e.key asked) := by
    have hreleased := loses_releaseKey hs' hd' e.key
    unfold Loses at hreleased ⊢
    rw [← hasked.table, ← hreleased]
    rfl
  have hunheld : (unheld e.key asked).held = d.held.filter (· ≠ e.key) := by
    rw [unheld, hmoved.held, hasked.moved.held]
  have hunreported : (unheld e.key asked).reported = d.reported := by
    rw [unheld, hmoved.reported, hasked.moved.reported]
  change Relayed (takeFlags e.flags (unheld e.key asked)).2 _ at hrelayed
  refine ⟨?_, ?_, ?_⟩
  · have hboth : Loses (d.lostKeys e) d _ := (hloses.trans hflags).congr fun k => by
      rw [lostKeys, goesOff, hunheld, hunreported]
    unfold Loses at hboth ⊢
    rw [hrelayed.table, hboth]
  · rw [hrelayed.moved.held, hheld, hunheld]
  · rw [hrelayed.moved.reported, hreported]

end Dispatcher

end KeyConsole.Dispatch
