import AnalyzerBridge.Proofs.Json.Members

/-! Laying one value over another, as an operation on values. It goes name by name at every depth,
doing it again changes nothing, and the order in which members are visited makes no difference. -/
namespace AnalyzerBridge.Json

def isObject : Json → Bool
  | .object _ => true
  | _ => false

/-- The members of objects ascend, at every depth that names lead to. -/
inductive Sorted : Json → Prop
  | plain {v : Json} (h : v.isObject = false) : Sorted v
  | object {ms : List (String × Json)} (ha : Ascending ms)
      (hs : ∀ name v, lookup name ms = some v → Sorted v) : Sorted (.object ms)

/-- The value at the end of a path of names. -/
def at? : List String → Json → Option Json
  | [], v => some v
  | name :: path, v => (v.get? name).bind (at? path)

/-- The names of either, each with the value that it has in one of them, or with the value in the
second laid over the one in the first. -/
structure Keywise (base layer result : List (String × Json)) : Prop where
  ascending : Ascending result
  names : ∀ name, name ∈ result.map (·.1) ↔ name ∈ base.map (·.1) ∨ name ∈ layer.map (·.1)
  kept : ∀ name v, lookup name base = some v → lookup name layer = none →
    lookup name result = some v
  added : ∀ name w, lookup name base = none → lookup name layer = some w →
    lookup name result = some w
  laid : ∀ name v w, lookup name base = some v → lookup name layer = some w →
    lookup name result = some (v.overlay w)

/-- What may come of laying a value over another, where any of the members that are left may be
visited next. A new one is taken as it is, any other is laid over the old one. -/
inductive Laid : Json → Json → Json → Prop
  | instead {b o : Json} (h : b.isObject = false ∨ o.isObject = false) : Laid b o o
  | done {base : List (String × Json)} : Laid (.object base) (.object []) (.object base)
  | added {base layer rest : List (String × Json)} {name : String} {v r : Json}
      (hp : layer.Perm ((name, v) :: rest)) (hn : lookup name base = none)
      (h : Laid (.object (put name (fun _ => v) base)) (.object rest) r) :
      Laid (.object base) (.object layer) r
  | laid {base layer rest : List (String × Json)} {name : String} {old v new r : Json}
      (hp : layer.Perm ((name, v) :: rest)) (hn : lookup name base = some old)
      (hv : Laid old v new) (h : Laid (.object (put name (fun _ => new) base)) (.object rest) r) :
      Laid (.object base) (.object layer) r

variable {name : String} {path : List String} {v w x y old b o r : Json}
  {ms base layer rest : List (String × Json)}

theorem keywise_overlayMembers (hb : Ascending base) (hl : (layer.map (·.1)).Nodup) :
    Keywise base layer (overlayMembers base layer) where
  ascending := ascending_overlayMembers hb
  names name := by
    rw [← not_iff_not, not_or, ← lookup_eq_none_iff, ← lookup_eq_none_iff, ← lookup_eq_none_iff,
      lookup_overlayMembers hb hl]
    cases lookup name layer <;> simp
  kept name v hv hw := by rw [lookup_overlayMembers hb hl, hw, hv]
  added name w hv hw := by rw [lookup_overlayMembers hb hl, hw, hv]
  laid name v w hv hw := by rw [lookup_overlayMembers hb hl, hw, hv]

section Values

theorem overlay_of_plain (h : b.isObject = false ∨ o.isObject = false) : b.overlay o = o := by
  cases b with
  | object base =>
    cases o with
    | object layer => exact absurd h (by simp [isObject])
    | _ => simp only [overlay]
  | _ => simp only [overlay]

theorem overlay_nil : (object base).overlay (object []) = object base := by
  rw [overlay, overlayMembers]

theorem sorted_canonical (v : Json) : v.canonical.Sorted := by
  generalize hw : v.canonical = w
  induction hn : sizeOf w using Nat.strong_induction_on generalizing v w with
  | h n ih =>
    cases w with
    | object ms =>
      refine .object (ascending_of_canonical hw) fun name x hx => ?_
      obtain ⟨u, hu⟩ := canonical_of_lookup hw hx
      exact ih _ (hn ▸ sizeOf_lookup hx) u x hu.symm rfl
    | _ => exact .plain rfl

theorem Sorted.ascending (h : (Json.object ms).Sorted) : Ascending ms := by
  cases h with
  | plain h => cases h
  | object ha hs => exact ha

theorem Sorted.of_lookup (h : (Json.object ms).Sorted) (hv : lookup name ms = some v) :
    v.Sorted := by
  cases h with
  | plain h => cases h
  | object ha hs => exact hs name v hv

theorem sorted_put (hb : (object base).Sorted) (hv : v.Sorted) :
    (object (put name (fun _ => v) base)).Sorted := by
  refine .object (ascending_put hb.ascending) fun key x hx => ?_
  rw [lookup_put hb.ascending] at hx
  split at hx
  · exact Option.some.inj hx ▸ hv
  · exact hb.of_lookup hx

/-- What holds where one value replaces the other, and of two objects if it holds of any value and a
member of the second that may be laid over it, holds of all sorted values. -/
@[elab_as_elim]
theorem Sorted.layered {motive : Json → Json → Prop} (hb : b.Sorted) (ho : o.Sorted)
    (replaced : ∀ b o, o.Sorted → b.isObject = false ∨ o.isObject = false → motive b o)
    (objects : ∀ base layer, (Json.object base).Sorted → (Json.object layer).Sorted →
      (∀ name v w, v.Sorted → lookup name layer = some w → motive v w) →
      motive (.object base) (.object layer)) : motive b o := by
  -- the induction is on the layer: the base may have new members by the time a member is visited
  induction ho generalizing b with
  | plain h => exact replaced b _ (.plain h) (.inr h)
  | @object layer ha hs ih =>
    cases b with
    | object base =>
      exact objects base layer hb (.object ha hs) fun name v w hv hw => ih name w hw hv
    | _ => exact replaced _ _ (.object ha hs) (.inl rfl)

theorem sorted_overlay (hb : b.Sorted) (ho : o.Sorted) : (b.overlay o).Sorted := by
  refine hb.layered ho ?replaced ?objects
  case replaced =>
    intro b o ho h
    rwa [overlay_of_plain h]
  case objects =>
    intro base layer hb ho ih
    rw [overlay]
    refine .object (ascending_overlayMembers hb.ascending) fun name x hx => ?_
    rw [lookup_overlayMembers hb.ascending ho.ascending.nodup] at hx
    cases hw : lookup name layer with
    | none =>
      rw [hw] at hx
      exact hb.of_lookup hx
    | some w =>
      cases hv : lookup name base with
      | none =>
        rw [hw, hv] at hx
        exact Option.some.inj hx ▸ ho.of_lookup hw
      | some v =>
        rw [hw, hv] at hx
        exact Option.some.inj hx ▸ ih name v w (hb.of_lookup hv) hw

/-- A value laid over itself is the same value. -/
theorem overlay_self (h : v.Sorted) : v.overlay v = v := by
  induction h with
  | plain h => exact overlay_of_plain (.inr h)
  | @object ms ha hs ih =>
    rw [overlay]
    refine congrArg object (Ascending.ext (ascending_overlayMembers ha) ha fun name => ?_)
    rw [lookup_overlayMembers ha ha.nodup]
    cases hv : lookup name ms with
    | none => rfl
    | some v => exact congrArg some (ih name v hv)

/-- What has been laid over a value and is laid over it again changes nothing. -/
theorem overlay_again (hb : b.Sorted) (ho : o.Sorted) :
    (b.overlay o).overlay o = b.overlay o := by
  refine hb.layered ho ?replaced ?objects
  case replaced =>
    intro b o ho h
    rw [overlay_of_plain h, overlay_self ho]
  case objects =>
    intro base layer hb ho ih
    have hl := ho.ascending.nodup
    have hr : Ascending (overlayMembers base layer) := ascending_overlayMembers hb.ascending
    rw [overlay, overlay]
    refine congrArg object (Ascending.ext (ascending_overlayMembers hr) hr fun name => ?_)
    rw [lookup_overlayMembers hr hl, lookup_overlayMembers hb.ascending hl]
    cases hw : lookup name layer with
    | none => rfl
    | some w =>
      cases hv : lookup name base with
      -- a new member is laid over itself the second time
      | none => exact congrArg some (overlay_self (ho.of_lookup hw))
      | some v => exact congrArg some (ih name v w (hb.of_lookup hv) hw)

end Values

section Paths

theorem at?_cons : v.at? (name :: path) = some x ↔
    ∃ ms w, v = .object ms ∧ lookup name ms = some w ∧ w.at? path = some x := by
  rw [at?, Option.bind_eq_some_iff]
  cases v <;> simp [get?]

theorem Sorted.of_at (h : v.Sorted) (hx : v.at? path = some x) : x.Sorted := by
  induction path generalizing v with
  | nil => exact Option.some.inj hx ▸ h
  | cons name path ih =>
    obtain ⟨ms, w, rfl, hw, hx⟩ := at?_cons.1 hx
    exact ih (h.of_lookup hw) hx

/-- Where a path leads to values in both, it leads to the one laid over the other. -/
theorem at?_overlay (hb : b.Sorted) (ho : o.Sorted) (hx : b.at? path = some x)
    (hy : o.at? path = some y) : (b.overlay o).at? path = some (x.overlay y) := by
  induction path generalizing b o with
  | nil =>
    cases hx
    cases hy
    rfl
  | cons name path ih =>
    obtain ⟨base, v, rfl, hv, hx⟩ := at?_cons.1 hx
    obtain ⟨layer, w, rfl, hw, hy⟩ := at?_cons.1 hy
    have hlaid := (keywise_overlayMembers hb.ascending ho.ascending.nodup).laid name v w hv hw
    rw [overlay, at?_cons]
    exact ⟨_, _, rfl, hlaid, ih (hb.of_lookup hv) (ho.of_lookup hw) hx hy⟩

end Paths

section Orders

/-- The members have different names, in any order, and are sorted inside. -/
def Loose (layer : List (String × Json)) : Prop :=
  (layer.map (·.1)).Nodup ∧ ∀ m ∈ layer, m.2.Sorted

theorem Sorted.loose (h : (Json.object ms).Sorted) : Loose ms := by
  refine ⟨h.ascending.nodup, fun m hm => ?_⟩
  exact h.of_lookup (lookup_of_mem h.ascending.nodup hm)

theorem Loose.visit (h : Loose layer) (hp : layer.Perm ((name, v) :: rest)) :
    v.Sorted ∧ Loose rest := by
  have hn : (((name, v) :: rest).map (·.1)).Nodup := (hp.map _).nodup_iff.1 h.1
  refine ⟨h.2 _ (hp.mem_iff.2 List.mem_cons_self), (List.nodup_cons.1 hn).2, fun m hm => ?_⟩
  exact h.2 m (hp.mem_iff.2 (List.mem_cons_of_mem _ hm))

/-- A new member that is visited first is taken as it is. -/
theorem overlayMembers_added (hb : Ascending base) (hl : Loose layer)
    (hp : layer.Perm ((name, v) :: rest)) (hn : lookup name base = none) :
    overlayMembers base layer = overlayMembers (put name (fun _ => v) base) rest := by
  rw [overlayMembers_perm hb hp hl.1, overlayMembers, put_of_lookup hb (by rw [hn])]

/-- Any other member that is visited first is laid over the old one. -/
theorem overlayMembers_laid (hb : Ascending base) (hl : Loose layer)
    (hp : layer.Perm ((name, v) :: rest)) (hn : lookup name base = some old) :
    overlayMembers base layer = overlayMembers (put name (fun _ => old.overlay v) base) rest := by
  rw [overlayMembers_perm hb hp hl.1, overlayMembers, put_of_lookup hb (by rw [hn])]

/-- Whatever is visited next, nothing else comes of it. -/
theorem Laid.eq_overlay (h : Laid b o r) (hb : b.Sorted)
    (ho : ∀ layer, o = .object layer → Loose layer) : r = b.overlay o := by
  induction h with
  | instead h => exact (overlay_of_plain h).symm
  | done => exact overlay_nil.symm
  | added hp hn h ih =>
    have hl := ho _ rfl
    obtain ⟨hv, hrest⟩ := hl.visit hp
    rw [ih (sorted_put hb hv) fun _ heq => object.inj heq ▸ hrest, overlay, overlay,
      overlayMembers_added hb.ascending hl hp hn]
  | laid hp hn hlaid h ihv ih =>
    have hl := ho _ rfl
    obtain ⟨hv, hrest⟩ := hl.visit hp
    obtain rfl := ihv (hb.of_lookup hn) fun _ heq => (heq ▸ hv).loose
    have hnew := sorted_overlay (hb.of_lookup hn) hv
    rw [ih (sorted_put hb hnew) fun _ heq => object.inj heq ▸ hrest, overlay, overlay,
      overlayMembers_laid hb.ascending hl hp hn]

/-- The order of the list is one in which members may be visited. -/
theorem laid_overlayMembers (hb : (object base).Sorted) (hl : Loose layer)
    (hlaid : ∀ m ∈ layer, ∀ v : Json, v.Sorted → Laid v m.2 (v.overlay m.2)) :
    Laid (.object base) (.object layer) (.object (overlayMembers base layer)) := by
  induction layer generalizing base with
  | nil => exact .done
  | cons m rest ih =>
    obtain ⟨name, w⟩ := m
    have hfirst := List.Perm.refl ((name, w) :: rest)
    obtain ⟨hw, hrest⟩ := hl.visit hfirst
    have hlaid' := fun m hm => hlaid m (List.mem_cons_of_mem (name, w) hm)
    cases hv : lookup name base with
    | none =>
      rw [overlayMembers_added hb.ascending hl hfirst hv]
      exact .added hfirst hv (ih (sorted_put hb hw) hrest hlaid')
    | some v =>
      have hnew := sorted_overlay (hb.of_lookup hv) hw
      rw [overlayMembers_laid hb.ascending hl hfirst hv]
      exact .laid hfirst hv (hlaid _ List.mem_cons_self v (hb.of_lookup hv))
        (ih (sorted_put hb hnew) hrest hlaid')

theorem laid_overlay (hb : b.Sorted) (ho : o.Sorted) : Laid b o (b.overlay o) := by
  refine hb.layered ho ?replaced ?objects
  case replaced =>
    intro b o _ h
    rw [overlay_of_plain h]
    exact .instead h
  case objects =>
    intro base layer hb ho ih
    rw [overlay]
    refine laid_overlayMembers hb ho.loose fun m hm v hv => ?_
    exact ih m.1 v m.2 hv (lookup_of_mem ho.ascending.nodup hm)

end Orders

/-- Laying over goes name by name. Done twice it is done once, a value laid over itself is that
value, and an object without members leaves an object as it is. Wherever a path leads to objects in
both values, it leads to one that has the names of either: what only one of them has it has
unchanged, and under a common name it has the one laid over the other. The members may come in any
order there, and whichever is visited next, at any depth, nothing else comes of it. -/
theorem overlay_keywise (b o : Json) :
    (b.canonical.overlay o.canonical).overlay o.canonical = b.canonical.overlay o.canonical ∧
    b.canonical.overlay b.canonical = b.canonical ∧
    (∀ base, b.canonical = .object base → b.canonical.overlay (.object []) = b.canonical) ∧
    (∀ path base layer, b.canonical.at? path = some (.object base) →
      o.canonical.at? path = some (.object layer) → ∃ result,
        (b.canonical.overlay o.canonical).at? path = some (.object result) ∧
        Keywise base layer result ∧
        ∀ order, layer.Perm order → overlayMembers base order = result) ∧
    ∀ r, Laid b.canonical o.canonical r ↔ r = b.canonical.overlay o.canonical := by
  have hb := sorted_canonical b
  have ho := sorted_canonical o
  refine ⟨overlay_again hb ho, overlay_self hb, ?_, ?_, fun r => ⟨?_, ?_⟩⟩
  · intro base hbase
    rw [hbase, overlay_nil]
  · intro path base layer hx hy
    have hbase := (hb.of_at hx).ascending
    have hlayer := (ho.of_at hy).ascending.nodup
    refine ⟨overlayMembers base layer, ?_, keywise_overlayMembers hbase hlayer, ?_⟩
    · rw [at?_overlay hb ho hx hy, overlay]
    · intro order hp
      exact (overlayMembers_perm hbase hp hlayer).symm
  · intro h
    exact h.eq_overlay hb fun layer hl => (hl ▸ ho).loose
  · rintro rfl
    exact laid_overlay hb ho

def nested : Json := .object [("later", .null),
  ("analyzer", .object [("path", .text "qs"), ("args", .list [.text "-q"])])]

def nestedLayer : Json := .object [("diagnostics", .bool false),
  ("analyzer", .object [("timeoutMs", .nat 5), ("args", .object [])])]

theorem overlay_keywise_nested :
    nested.canonical = .object [("analyzer", .object [("args", .list [.text "-q"]),
      ("path", .text "qs")]), ("later", .null)] ∧
    nested.canonical.overlay (.object []) = nested.canonical ∧
    nested.canonical.at? ["analyzer"] = some (.object [("args", .list [.text "-q"]),
      ("path", .text "qs")]) ∧
    nestedLayer.canonical.at? ["analyzer"] = some (.object [("args", .object []),
      ("timeoutMs", .nat 5)]) ∧
    ∃ result, (nested.canonical.overlay nestedLayer.canonical).at? ["analyzer"] =
        some (.object result) ∧
      Keywise [("args", .list [.text "-q"]), ("path", .text "qs")]
        [("args", .object []), ("timeoutMs", .nat 5)] result := by
  obtain ⟨-, -, hempty, hpath, -⟩ := overlay_keywise nested nestedLayer
  obtain ⟨result, hat, hkeywise, -⟩ := hpath ["analyzer"] _ _ rfl rfl
  exact ⟨rfl, hempty _ rfl, rfl, rfl, result, hat, hkeywise⟩

end AnalyzerBridge.Json
