import Bitpress.Proofs.Table
import Bitpress.Template.Render

/-!
The variables that a block is rendered with.

The variables of a call are laid over the block's own ones, and both together over
the defaults of its bit. That is the same as one layer after the other
(`Block.layered_eq`), except at a path where the defaults show through
(`ShowsThrough`): where the block has replaced a map of the defaults by something
else, and the call has a map again. There the map of the call is laid over the one
that the block has replaced (`Block.layered_at`). A block whose own variables are in
the defaults already is rendered as one that has all of the defaults
(`ContextValue.layers_agree`).
-/

namespace Bitpress

namespace ContextValue

/-- What stands at the end of a path of keys. -/
def at? (v : ContextValue) : List String → Option ContextValue
  | [] => some v
  | key :: rest =>
    match v with
    | .map entries => (Table.valueAt? entries key).bind fun w => w.at? rest
    | _ => none

/-- Every map in a value, down any path of keys, has distinct keys. -/
def Keyed (v : ContextValue) : Prop := ∀ path entries, v.at? path = some (.map entries) → Table.Distinct entries

/-- At a path, the defaults have a map, which the block has replaced by something else, and the call has a
map again. -/
structure ShowsThrough (defaults own overrides : ContextValue) (path : List String) : Prop where
  defaults : ∃ entries, defaults.at? path = some (.map entries)
  own : ∃ v, own.at? path = some v ∧ ∀ entries, v ≠ .map entries
  overrides : ∃ entries, overrides.at? path = some (.map entries)

variable {d c o v : ContextValue} {base above : Table ContextValue} {key : String} {path : List String}

theorem at?_cons (h : Table.valueAt? base key = some v) : (map base).at? (key :: path) = v.at? path := by
  show (Table.valueAt? base key).bind _ = _
  rw [h]
  rfl

theorem exists_of_at?_cons (h : d.at? (key :: path) = some v) :
    ∃ entries w, d = .map entries ∧ Table.valueAt? entries key = some w ∧ w.at? path = some v := by
  cases d with
  | map entries =>
    obtain ⟨w, hw, hv⟩ := Option.bind_eq_some_iff.mp h
    exact ⟨entries, w, rfl, hw, hv⟩
  | _ => cases h

theorem Keyed.distinct (h : (map base).Keyed) : base.Distinct := h [] base rfl

theorem Keyed.under (h : (map base).Keyed) (hv : Table.valueAt? base key = some v) : v.Keyed :=
  fun path entries hpath => h (key :: path) entries ((at?_cons hv).trans hpath)

/-! ### Layers -/

theorem overlayEntries_eq (base above : List (String × ContextValue)) :
    overlayEntries base above = Table.mergeWith overlay base above := by
  induction above generalizing base with
  | nil =>
    unfold overlayEntries
    rfl
  | cons e rest ih =>
    obtain ⟨key, value⟩ := e
    unfold overlayEntries
    show _ = Table.mergeWith overlay (Table.put base key (Table.meetAt overlay base key value)) rest
    unfold Table.meetAt
    cases Table.valueAt? base key with
    | none => exact ih _
    | some there => exact ih _

theorem overlay_map (base above : Table ContextValue) :
    overlay (.map base) (.map above) = .map (Table.mergeWith overlay base above) := by
  rw [← overlayEntries_eq]
  unfold overlay
  rfl

theorem overlay_map_of_ne (h : ∀ entries, v ≠ .map entries) (above : Table ContextValue) :
    overlay v (.map above) = .map above := by
  cases v with
  | map entries => exact absurd rfl (h entries)
  | _ => unfold overlay; rfl

theorem overlay_of_ne (h : ∀ entries, v ≠ .map entries) (d : ContextValue) : overlay d v = v := by
  cases v with
  | map entries => exact absurd rfl (h entries)
  | _ => unfold overlay; rfl

theorem at?_overlay_cons (habove : above.Distinct) (hb : Table.valueAt? base key = some d)
    (ha : Table.valueAt? above key = some o) :
    (overlay (map base) (map above)).at? (key :: path) = (overlay d o).at? path := by
  rw [overlay_map]
  refine at?_cons ?_
  rw [Table.valueAt?_mergeWith habove, hb, ha]
  rfl

theorem sizeOf_lt_of_valueAt? (h : Table.valueAt? base key = some v) : sizeOf v < sizeOf (map base) := by
  have hmem := List.sizeOf_lt_of_mem (Table.mem_of_valueAt? h)
  simp only [Prod.mk.sizeOf_spec, map.sizeOf_spec] at hmem ⊢
  omega

/-- Layers may be laid in either order if nothing shows through. -/
theorem overlay_overlay (hd : d.Keyed) (hc : c.Keyed) (ho : o.Keyed) (h : ∀ path, ¬ ShowsThrough d c o path) :
    d.overlay (c.overlay o) = (d.overlay c).overlay o := by
  induction hsize : sizeOf o using Nat.strongRecOn generalizing d c o with
  | _ n ih =>
    subst hsize
    by_cases hmap : ∃ top, o = .map top
    case neg =>
      have htop : ∀ entries, o ≠ .map entries := fun entries he => hmap ⟨entries, he⟩
      rw [overlay_of_ne htop, overlay_of_ne htop, overlay_of_ne htop]
    obtain ⟨top, rfl⟩ := hmap
    by_cases hmid : ∃ mid, c = .map mid
    case neg =>
      have hmid : ∀ entries, c ≠ .map entries := fun entries he => hmid ⟨entries, he⟩
      have hlow : ∀ entries, d ≠ .map entries := fun low he =>
        h [] ⟨⟨low, congrArg some he⟩, ⟨c, rfl, hmid⟩, ⟨top, rfl⟩⟩
      rw [overlay_map_of_ne hmid, overlay_map_of_ne hlow, overlay_of_ne hmid, overlay_map_of_ne hmid]
    obtain ⟨mid, rfl⟩ := hmid
    by_cases hlow : ∃ low, d = .map low
    case neg =>
      have hlow : ∀ entries, d ≠ .map entries := fun entries he => hlow ⟨entries, he⟩
      rw [overlay_map, overlay_map_of_ne hlow, overlay_map_of_ne hlow, overlay_map]
    obtain ⟨low, rfl⟩ := hlow
    simp only [overlay_map]
    congr 1
    refine Table.mergeWith_assoc hd.distinct hc.distinct ho.distinct fun key u v w hu hv hw => ?_
    refine ih _ (sizeOf_lt_of_valueAt? hw) (hd.under hu) (hc.under hv) (ho.under hw) (fun path hpath => ?_) rfl
    obtain ⟨⟨es, hes⟩, ⟨x, hx, hne⟩, ⟨es', hes'⟩⟩ := hpath
    exact h (key :: path)
      ⟨⟨es, (at?_cons hu).trans hes⟩, ⟨x, (at?_cons hv).trans hx, hne⟩, ⟨es', (at?_cons hw).trans hes'⟩⟩

/-- Where the defaults show through, the map of the call is laid over the one that the block has replaced;
one layer after the other, it would stand alone. -/
theorem overlay_at {low top : Table ContextValue} (hc : c.Keyed) (ho : o.Keyed) (hd : d.at? path = some (.map low))
    (hown : ∃ v, c.at? path = some v ∧ ∀ entries, v ≠ .map entries) (htop : o.at? path = some (.map top)) :
    (d.overlay (c.overlay o)).at? path = some (.map (Table.mergeWith overlay low top)) ∧
      ((d.overlay c).overlay o).at? path = some (.map top) := by
  induction path generalizing d c o with
  | nil =>
    cases hd
    cases htop
    obtain ⟨v, hv, hne⟩ := hown
    cases hv
    rw [overlay_map_of_ne hne, overlay_of_ne hne, overlay_map_of_ne hne, overlay_map]
    exact ⟨rfl, rfl⟩
  | cons key rest ih =>
    obtain ⟨ds, d', rfl, hds, hd⟩ := exists_of_at?_cons hd
    obtain ⟨os, o', rfl, hos, htop⟩ := exists_of_at?_cons htop
    obtain ⟨v, hv, hne⟩ := hown
    obtain ⟨cs, c', rfl, hcs, hv⟩ := exists_of_at?_cons hv
    obtain ⟨hleft, hright⟩ := ih (hc.under hcs) (ho.under hos) hd ⟨v, hv, hne⟩ htop
    have hupper : Table.valueAt? (Table.mergeWith overlay cs os) key = some (overlay c' o') := by
      rw [Table.valueAt?_mergeWith ho.distinct, hcs, hos]
      rfl
    have hlower : Table.valueAt? (Table.mergeWith overlay ds cs) key = some (overlay d' c') := by
      rw [Table.valueAt?_mergeWith hc.distinct, hds, hcs]
      rfl
    rw [overlay_map cs os, overlay_map ds cs]
    exact ⟨(at?_overlay_cons (hc.distinct.mergeWith os) hds hupper).trans hleft,
      (at?_overlay_cons ho.distinct hlower hos).trans hright⟩

/-! ### Layers twice -/

variable {s : ContextValue}

/-- A layer takes the place of what is below, unless both are maps. -/
theorem overlay_of_not_maps (h : ¬ ((∃ base, d = .map base) ∧ ∃ above, c = .map above)) : d.overlay c = c := by
  by_cases hc : ∃ above, c = .map above
  · obtain ⟨above, rfl⟩ := hc
    exact overlay_map_of_ne (fun base hb => h ⟨⟨base, hb⟩, above, rfl⟩) above
  · exact overlay_of_ne (fun above ha => hc ⟨above, ha⟩) d

theorem overlay_self (h : v.Keyed) : v.overlay v = v := by
  induction hsize : sizeOf v using Nat.strongRecOn generalizing v with
  | _ n ih =>
    subst hsize
    by_cases hmap : ∃ entries, v = .map entries
    · obtain ⟨entries, rfl⟩ := hmap
      rw [overlay_map]
      refine congrArg map (Table.mergeWith_eq_self fun e he => ?_)
      have hvalue := Table.valueAt?_of_mem h.distinct he
      exact ⟨e.2, hvalue, ih _ (sizeOf_lt_of_valueAt? hvalue) (h.under hvalue) rfl⟩
    · exact overlay_of_ne (fun entries he => hmap ⟨entries, he⟩) v

/-- Layers of maps with distinct keys are such a map. -/
theorem Keyed.overlay (hd : d.Keyed) (hc : c.Keyed) : (d.overlay c).Keyed := by
  intro path
  induction path generalizing d c with
  | nil =>
    intro entries he
    by_cases hmaps : (∃ base, d = .map base) ∧ ∃ above, c = .map above
    · obtain ⟨⟨base, rfl⟩, above, rfl⟩ := hmaps
      rw [overlay_map] at he
      cases he
      exact hd.distinct.mergeWith above
    · rw [overlay_of_not_maps hmaps] at he
      exact hc [] entries he
  | cons key rest ih =>
    intro entries he
    by_cases hmaps : (∃ base, d = .map base) ∧ ∃ above, c = .map above
    · obtain ⟨⟨base, rfl⟩, above, rfl⟩ := hmaps
      rw [overlay_map] at he
      obtain ⟨_, w, hmerged, hw, he⟩ := exists_of_at?_cons he
      cases hmerged
      rw [Table.valueAt?_mergeWith hc.distinct] at hw
      cases hb : Table.valueAt? base key with
      | none =>
        rw [hb, Option.merge_none_left] at hw
        exact hc.under hw rest entries he
      | some u =>
        cases ha : Table.valueAt? above key with
        | none =>
          rw [hb, ha, Option.merge_none_right] at hw
          cases hw
          exact hd.under hb rest entries he
        | some v =>
          rw [hb, ha] at hw
          cases hw
          exact ih (hd.under hb) (hc.under ha) entries he
    · rw [overlay_of_not_maps hmaps] at he
      exact hc (key :: rest) entries he

/-- What is no map in the upper layer is the same in both. -/
theorem at?_overlay_of_ne (hc : c.Keyed) (h : c.at? path = some v) (hne : ∀ entries, v ≠ .map entries) :
    (d.overlay c).at? path = some v := by
  induction path generalizing d c with
  | nil =>
    cases h
    rw [overlay_of_ne hne]
    rfl
  | cons key rest ih =>
    by_cases hmaps : (∃ base, d = .map base) ∧ ∃ above, c = .map above
    · obtain ⟨⟨base, rfl⟩, above, rfl⟩ := hmaps
      obtain ⟨_, w, habove, ha, hw⟩ := exists_of_at?_cons h
      cases habove
      cases hb : Table.valueAt? base key with
      | none =>
        rw [overlay_map]
        refine (at?_cons ?_).trans hw
        rw [Table.valueAt?_mergeWith hc.distinct, hb, ha, Option.merge_none_left]
      | some u => exact (at?_overlay_cons hc.distinct hb ha).trans (ih (hc.under ha) hw)
    · rwa [overlay_of_not_maps hmaps]

/-- Over defaults that it is part of already, a layer is as good as all of them. -/
theorem layers_agree (hs : s.Keyed) (hv : v.Keyed) (ho : o.Keyed) :
    (s.overlay v).overlay (v.overlay o) = (s.overlay v).overlay ((s.overlay v).overlay o) := by
  have hd : (s.overlay v).Keyed := hs.overlay hv
  have hover : (s.overlay v).overlay v = s.overlay v := by
    rw [← overlay_overlay hs hv hv fun path h => ?_, overlay_self hv]
    obtain ⟨-, ⟨w, hw, hne⟩, ⟨entries, hentries⟩⟩ := h
    cases hw.symm.trans hentries
    exact hne entries rfl
  rw [overlay_overlay hd hv ho fun path h => ?_, hover, overlay_overlay hd hd ho fun path h => ?_, overlay_self hd]
  · obtain ⟨⟨low, hlow⟩, ⟨w, hw, hne⟩, -⟩ := h
    cases hlow.symm.trans hw
    exact hne low rfl
  · obtain ⟨⟨low, hlow⟩, ⟨w, hw, hne⟩, -⟩ := h
    cases hlow.symm.trans (at?_overlay_of_ne hv hw hne)
    exact hne low rfl

end ContextValue

/-! ### Blocks -/

namespace Block

open ContextValue

variable {b : Block} {defaults overrides : Context}

theorem merge_eq {above below : Context} : ContextValue.map (Context.merge below above) = overlay (.map below) (.map above) := by
  unfold overlay
  rfl

/-- Where nothing shows through, a block is rendered with the defaults of its bit, its own variables and
those of the call, one layer after the other. -/
theorem layered_eq (hd : (map defaults).Keyed) (hb : (map b.context).Keyed) (ho : (map overrides).Keyed)
    (h : ∀ path, ¬ ShowsThrough (.map defaults) (.map b.context) (.map overrides) path) :
    b.layered defaults overrides = (defaults.merge b.context).merge overrides := by
  have := overlay_overlay hd hb ho h
  simp only [← merge_eq] at this
  exact ContextValue.map.inj this

/-- Where the defaults show through, the variables of the call meet what the block has replaced. -/
theorem layered_at {path : List String} {low top : Table ContextValue} (hb : (map b.context).Keyed)
    (ho : (map overrides).Keyed) (hd : (map defaults).at? path = some (.map low))
    (hown : ∃ v, (map b.context).at? path = some v ∧ ∀ entries, v ≠ .map entries)
    (htop : (map overrides).at? path = some (.map top)) :
    (map (b.layered defaults overrides)).at? path = some (.map (Table.mergeWith overlay low top)) ∧
      (map ((defaults.merge b.context).merge overrides)).at? path = some (.map top) := by
  have := overlay_at hb ho hd hown htop
  simp only [← merge_eq] at this
  exact this

/-- A string of the block does not keep the border of the defaults from coming back. -/
example (b : Block) (h : b.context = [("opts", .str "none")]) :
    b.layered [("opts", .map [("border", .str "thick")])] [("opts", .map [("color", .str "red")])] =
      [("opts", .map [("border", .str "thick"), ("color", .str "red")])] := by
  rw [layered, h]
  rfl

/-- A block is rendered as with one layer after the other, unless the defaults show through. -/
theorem render_eq {renderer : Renderer} {part : Option String} (hb : (map b.context).Keyed)
    (hd : (map (renderer.defaults b.bit.info.id)).Keyed) (ho : (map overrides).Keyed)
    (h : ∀ path, ¬ ShowsThrough (.map (renderer.defaults b.bit.info.id)) (.map b.context) (.map overrides) path) :
    b.render renderer part overrides = (do
      let source ← b.bit.fragment part
      renderer.renderText source (((renderer.defaults b.bit.info.id).merge b.context).merge overrides)) := by
  unfold render
  rw [layered_eq hd hb ho h]

end Block

end Bitpress
