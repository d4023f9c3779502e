import Breadboard.Proofs.Shape

/-!
# Places of a circuit

Every instance of a circuit has its place: a path into the composites on some seats, one inside the
other, and a seat in the scope where the path ends. Two circuits are compared place by place, so
that it does not matter whether ids are distinct.

* `Scope.at?`, `Scope.instanceAt?`: the scope at the end of a path, the instance at a place;
* `Scope.instanceAt?_concat`: the parts of the instance at a place;
* `Scope.at?_rel`: scopes whose insides match on every seat match at every depth;
* `Scope.Corresponds`, `Scope.corresponds_iff`: circuits with the same places, compared on each;
* `getElem?_updateInstance`, `getElem?_updateInstance_rel`: what is on a seat after the first
  instance of an id is updated, in one scope and in two;
* `Scope.instanceAt?_updateInstance`: an update that leaves insides alone matters at the top only.
-/

namespace Breadboard

/-- The inside of a composite. -/
def Instance.inside? (i : Instance) : Option Scope :=
  match i.body with
  | .composite parts wires => some ⟨parts, wires, i.signals.inputs⟩
  | _ => none

theorem inside?_leaf {i : Instance} (hleaf : i.isComposite = false) : i.inside? = none := by
  obtain ⟨part, expanded, s, body⟩ := i
  cases body with
  | composite => exact absurd hleaf (by simp [Instance.isComposite])
  | unknown | primitive => rfl

/-- The inside of the instance on a seat, if it is a composite. -/
def Scope.inside? (s : Scope) (k : Nat) : Option Scope := (s.instances[k]?).bind Instance.inside?

/-- The scope inside the instances on the given seats, one inside the other. -/
def Scope.at? (s : Scope) : List Nat → Option Scope
  | [] => some s
  | k :: path => (s.inside? k).bind fun t => t.at? path

/-- The instance on the `k`-th seat at the end of a path. -/
def Scope.instanceAt? (s : Scope) (path : List Nat) (k : Nat) : Option Instance :=
  (s.at? path).bind fun t => t.instances[k]?

theorem Scope.instanceAt?_nil (s : Scope) (k : Nat) : s.instanceAt? [] k = s.instances[k]? := rfl

theorem Scope.at?_concat (s : Scope) (path : List Nat) (k : Nat) :
    s.at? (path ++ [k]) = (s.at? path).bind fun t => t.inside? k := by
  induction path generalizing s with
  | nil =>
    change (s.inside? k).bind some = s.inside? k
    exact Option.bind_fun_some _
  | cons m path ih =>
    rw [List.cons_append, at?, at?, Option.bind_assoc]
    exact congrArg _ (funext fun t => ih t)

/-- **The parts of the instance at a place** are one level further in. -/
theorem Scope.instanceAt?_concat (s : Scope) (path : List Nat) (k m : Nat) :
    s.instanceAt? (path ++ [k]) m = (s.instanceAt? path k).bind fun i => i.parts[m]? := by
  have hparts : ∀ i : Instance, i.inside?.bind (fun t => t.instances[m]?) = i.parts[m]? := by
    rintro ⟨part, expanded, signals, body⟩
    cases body <;> rfl
  unfold instanceAt?
  rw [at?_concat, Option.bind_assoc, Option.bind_assoc]
  refine congrArg _ (funext fun t => ?_)
  unfold Scope.inside?
  rw [Option.bind_assoc]
  exact congrArg _ (funext hparts)

/-- The scope at the end of a path is held. -/
theorem Scope.holds_of_at? (path : List Nat) :
    ∀ {s t : Scope}, s.at? path = some t → s.Holds t := by
  induction path with
  | nil =>
    intro s t h
    cases h
    exact .refl s
  | cons m path ih =>
    intro s t h
    obtain ⟨u, hinside, hrest⟩ := Option.bind_eq_some_iff.1 h
    obtain ⟨i, hi, hbody⟩ := Option.bind_eq_some_iff.1 hinside
    obtain ⟨part, expanded, signals, body⟩ := i
    cases body with
    | unknown | primitive => cases hbody
    | composite parts wires =>
      cases hbody
      exact .inside (List.mem_of_getElem? hi) (ih hrest)

/-! ## Place by place -/

theorem rel_bind {α β γ δ : Type} {R : α → β → Prop} {S : γ → δ → Prop} {f : α → Option γ}
    {g : β → Option δ} (h : ∀ a b, R a b → Option.Rel S (f a) (g b)) {x : Option α}
    {y : Option β} (hxy : Option.Rel R x y) : Option.Rel S (x.bind f) (y.bind g) := by
  cases hxy with
  | none => exact .none
  | some hab => exact h _ _ hab

theorem rel_imp {α β : Type} {R S : α → β → Prop} (h : ∀ a b, R a b → S a b) {x : Option α}
    {y : Option β} (hxy : Option.Rel R x y) : Option.Rel S x y := by
  cases hxy with
  | none => exact .none
  | some hab => exact .some (h _ _ hab)

theorem rel_trans {α : Type} {R S T : α → α → Prop} (h : ∀ a b c, R a b → S b c → T a c)
    {x y z : Option α} (hxy : Option.Rel R x y) (hyz : Option.Rel S y z) : Option.Rel T x z := by
  cases hxy with
  | none =>
    cases hyz
    exact .none
  | some hab =>
    cases hyz with
    | some hbc => exact .some (h _ _ _ hab hbc)

theorem rel_refl {α : Type} {R : α → α → Prop} (h : ∀ a, R a a) (x : Option α) :
    Option.Rel R x x := by
  cases x with
  | none => exact .none
  | some a => exact .some (h a)

theorem rel_symm {α β : Type} {R : α → β → Prop} {x : Option α} {y : Option β}
    (h : Option.Rel R x y) : Option.Rel (fun b a => R a b) y x := by
  cases h with
  | none => exact .none
  | some hab => exact .some hab

theorem map_eq_of_rel {α β γ : Type} {R : α → β → Prop} {f : α → γ} {g : β → γ}
    (h : ∀ a b, R a b → f a = g b) {x : Option α} {y : Option β} (hxy : Option.Rel R x y) :
    x.map f = y.map g := by
  cases hxy with
  | none => rfl
  | some hab => exact congrArg some (h _ _ hab)

theorem rel_and {α β : Type} {R S : α → β → Prop} {x : Option α} {y : Option β}
    (h : Option.Rel R x y) (h' : Option.Rel S x y) : Option.Rel (fun a b => R a b ∧ S a b) x y := by
  cases h with
  | none => exact .none
  | some hab =>
    cases h' with
    | some hab' => exact .some ⟨hab, hab'⟩

/-- What two values that are both there have to do with each other. -/
theorem rel_some {α β : Type} {R : α → β → Prop} {x : Option α} {y : Option β}
    (h : Option.Rel R x y) {a : α} {b : β} (hx : x = some a) (hy : y = some b) : R a b := by
  subst hx hy
  cases h with
  | some hab => exact hab

theorem rel_of_some {α β : Type} {R S : α → β → Prop} {x : Option α} {y : Option β}
    (h : Option.Rel R x y) (hS : ∀ a b, x = some a → y = some b → R a b → S a b) :
    Option.Rel S x y := by
  cases h with
  | none => exact .none
  | some hab => exact .some (hS _ _ rfl rfl hab)

/-- The places of two lists that have the same images. -/
theorem getElem?_rel_of_map_eq {α β γ : Type} {f : α → γ} {g : β → γ} {l : List α} {l' : List β}
    (h : l.map f = l'.map g) (k : Nat) :
    Option.Rel (fun a b => a ∈ l ∧ b ∈ l' ∧ f a = g b) (l[k]?) (l'[k]?) := by
  have hk := congrArg (fun m => m[k]?) h
  simp only [List.getElem?_map] at hk
  cases ha : l[k]? <;> cases hb : l'[k]? <;> rw [ha, hb] at hk
  · exact .none
  · exact absurd hk (by simp)
  · exact absurd hk (by simp)
  · exact .some ⟨List.mem_of_getElem? ha, List.mem_of_getElem? hb, Option.some.inj hk⟩

/-- The places of two circuits of one shape, seat by seat. -/
theorem getElem?_rel_of_blankAll {scope scope' : List Instance}
    (h : blankAll scope = blankAll scope') (k : Nat) :
    Option.Rel (fun i j => i.blank = j.blank) (scope[k]?) (scope'[k]?) := by
  rw [blankAll_eq_map, blankAll_eq_map] at h
  exact rel_imp (fun _ _ hij => hij.2.2) (getElem?_rel_of_map_eq h k)

/-- **From one level to every depth**: what passes from two scopes to the insides on each seat
passes along every path. -/
theorem Scope.at?_rel {S : Scope → Scope → Prop}
    (h : ∀ u v, S u v → ∀ k, Option.Rel S (u.inside? k) (v.inside? k)) (path : List Nat) :
    ∀ {s t : Scope}, S s t → Option.Rel S (s.at? path) (t.at? path) := by
  induction path with
  | nil => exact fun hst => .some hst
  | cons k path ih =>
    intro s t hst
    exact rel_bind (fun _ _ huv => ih huv) (h s t hst k)

/-- Scopes that match at every depth match place by place. -/
theorem Scope.instanceAt?_rel {S : Scope → Scope → Prop} {R : Instance → Instance → Prop}
    (hR : ∀ u v, S u v → ∀ k : Nat, Option.Rel R (u.instances[k]?) (v.instances[k]?))
    (h : ∀ u v, S u v → ∀ k, Option.Rel S (u.inside? k) (v.inside? k)) {s t : Scope}
    (hst : S s t) (path : List Nat) (k : Nat) :
    Option.Rel R (s.instanceAt? path k) (t.instanceAt? path k) :=
  rel_bind (fun u v huv => hR u v huv k) (Scope.at?_rel h path hst)

/-- **What is the same of all instances of two scopes is the same at every place**, if it is the
same inside instances of which it is the same. -/
theorem Scope.instanceAt?_of_map_eq {α : Type} {f : Instance → α}
    (h : ∀ i j, f i = f j → Option.Rel
      (fun u v : Scope => u.instances.map f = v.instances.map f) i.inside? j.inside?)
    {s t : Scope} (hst : s.instances.map f = t.instances.map f) (path : List Nat) (k : Nat) :
    Option.Rel (fun i j => f i = f j) (s.instanceAt? path k) (t.instanceAt? path k) := by
  have hseats : ∀ u v : Scope, u.instances.map f = v.instances.map f → ∀ k : Nat,
      Option.Rel (fun i j => f i = f j) (u.instances[k]?) (v.instances[k]?) :=
    fun u v huv k => rel_imp (fun _ _ hij => hij.2.2) (getElem?_rel_of_map_eq huv k)
  exact Scope.instanceAt?_rel hseats (fun u v huv k => rel_bind h (hseats u v huv k)) hst path k

/-- Composites that keep the same have insides that keep the same. -/
theorem inside?_of_kept (i j : Instance) (h : i.kept = j.kept) :
    Option.Rel (fun u v : Scope => u.instances.map Instance.kept = v.instances.map Instance.kept)
      i.inside? j.inside? := by
  obtain ⟨part, expanded, s, body⟩ := j
  cases body with
  | unknown =>
    obtain ⟨s', rfl, -⟩ := kept_eq_unknown h
    exact .none
  | primitive kind =>
    obtain ⟨s', rfl, -⟩ := kept_eq_primitive h
    exact .none
  | composite parts inner =>
    obtain ⟨s', parts', rfl, hparts⟩ := kept_eq_composite h
    rw [keptAll_eq_map, keptAll_eq_map] at hparts
    exact .some hparts

/-- **Scopes that keep the same keep the same at every place.** -/
theorem instanceAt?_of_keptAll {s t : Scope} (h : keptAll s.instances = keptAll t.instances)
    (path : List Nat) (k : Nat) :
    Option.Rel (fun i j => i.kept = j.kept) (s.instanceAt? path k) (t.instanceAt? path k) := by
  rw [keptAll_eq_map, keptAll_eq_map] at h
  exact Scope.instanceAt?_of_map_eq inside?_of_kept h path k

/-- Scopes of the same instances and wires have the same instances at every place. -/
theorem Scope.instanceAt?_congr {s t : Scope} (hinst : s.instances = t.instances) (path : List Nat)
    (k : Nat) : s.instanceAt? path k = t.instanceAt? path k := by
  cases path with
  | nil => rw [instanceAt?_nil, instanceAt?_nil, hinst]
  | cons j path => unfold instanceAt? at? inside?; rw [hinst]

/-! ## Circuits that correspond -/

/-- At the end of every path both circuits have a scope or none has, and `R` holds of the instances
on the seats of the two scopes, one by one. -/
def Scope.Corresponds (R : Instance → Instance → Prop) (s t : Scope) : Prop :=
  ∀ path, Option.Rel
    (fun u v : Scope => ∀ k : Nat, Option.Rel R (u.instances[k]?) (v.instances[k]?))
    (s.at? path) (t.at? path)

/-- `R` holds of two instances, and their insides correspond. -/
def Instance.Corresponds (R : Instance → Instance → Prop) (i j : Instance) : Prop :=
  R i j ∧ Option.Rel (Scope.Corresponds R) i.inside? j.inside?

section Corresponds

variable {R S T : Instance → Instance → Prop} {s t : Scope}

/-- Circuits that correspond do so at every place. -/
theorem Scope.Corresponds.instanceAt? (h : s.Corresponds R t) (path : List Nat) (k : Nat) :
    Option.Rel R (s.instanceAt? path k) (t.instanceAt? path k) :=
  rel_bind (fun _ _ huv => huv k) (h path)

/-- **Circuits correspond seat by seat**, whatever their wires are. -/
theorem Scope.corresponds_iff :
    s.Corresponds R t ↔
      ∀ k : Nat, Option.Rel (Instance.Corresponds R) (s.instances[k]?) (t.instances[k]?) := by
  constructor
  · intro h k
    have hseat : Option.Rel R (s.instances[k]?) (t.instances[k]?) := h.instanceAt? [] k
    refine rel_of_some hseat fun i j hi hj hij => ⟨hij, ?_⟩
    have hpath : ∀ path, Option.Rel
        (fun u v : Scope => ∀ m : Nat, Option.Rel R (u.instances[m]?) (v.instances[m]?))
        (i.inside?.bind fun u => u.at? path) (j.inside?.bind fun v => v.at? path) := by
      intro path
      have hat := h (k :: path)
      unfold Scope.at? Scope.inside? at hat
      rw [hi, hj] at hat
      exact hat
    cases hu : i.inside? <;> cases hv : j.inside? <;> rw [hu, hv] at hpath
    · exact .none
    · nomatch hpath []
    · nomatch hpath []
    · exact .some hpath
  · intro h path
    cases path with
    | nil => exact .some fun k => rel_imp (fun _ _ hij => hij.1) (h k)
    | cons k path =>
      refine rel_bind (R := Scope.Corresponds R) (fun u v huv => huv path) ?_
      exact rel_bind (fun _ _ hij => hij.2) (h k)

/-- A relation that passes from scopes to the insides on each seat makes circuits correspond. -/
theorem Scope.corresponds_of {P : Scope → Scope → Prop}
    (hR : ∀ u v, P u v → ∀ k : Nat, Option.Rel R (u.instances[k]?) (v.instances[k]?))
    (h : ∀ u v, P u v → ∀ k, Option.Rel P (u.inside? k) (v.inside? k)) (hst : P s t) :
    s.Corresponds R t :=
  fun path => rel_imp hR (Scope.at?_rel h path hst)

theorem Scope.Corresponds.imp (h : s.Corresponds R t) (hRS : ∀ i j, R i j → S i j) :
    s.Corresponds S t :=
  fun path => rel_imp (fun _ _ huv k => rel_imp hRS (huv k)) (h path)

theorem Scope.Corresponds.refl (h : ∀ i, R i i) (s : Scope) : s.Corresponds R s :=
  fun path => rel_refl (fun _ _ => rel_refl h _) (s.at? path)

theorem Scope.Corresponds.symm (h : s.Corresponds R t) (hR : ∀ i j, R i j → R j i) :
    t.Corresponds R s := by
  intro path
  refine rel_imp (fun u v huv k => ?_) (rel_symm (h path))
  exact rel_imp (fun j i hij => hR i j hij) (rel_symm (huv k))

theorem Scope.Corresponds.trans {u : Scope} (h : s.Corresponds R t) (h' : t.Corresponds S u)
    (hRS : ∀ i j k, R i j → S j k → T i k) : s.Corresponds T u :=
  fun path => rel_trans (fun _ _ _ hab hbc k => rel_trans hRS (hab k) (hbc k)) (h path) (h' path)

theorem Scope.Corresponds.and (h : s.Corresponds R t) (h' : s.Corresponds S t) :
    s.Corresponds (fun i j => R i j ∧ S i j) t :=
  fun path => rel_imp (fun _ _ huv k => rel_and (huv.1 k) (huv.2 k)) (rel_and (h path) (h' path))

/-- Circuits with the same places correspond as soon as `S` holds at every place. -/
theorem Scope.Corresponds.of_places (h : s.Corresponds R t)
    (hS : ∀ path k i j, s.instanceAt? path k = some i → t.instanceAt? path k = some j → S i j) :
    s.Corresponds S t := by
  intro path
  refine rel_of_some (h path) fun u v hu hv huv k => ?_
  refine rel_of_some (huv k) fun i j hi hj _ => hS path k i j ?_ ?_
  · rw [Scope.instanceAt?, hu]
    exact hi
  · rw [Scope.instanceAt?, hv]
    exact hj

/-- Circuits that correspond have the same number of instances. -/
theorem Scope.Corresponds.length_eq (h : s.Corresponds R t) :
    s.instances.length = t.instances.length := by
  refine Nat.le_antisymm ?_ ?_
  · by_contra hlt
    have hseat := h.instanceAt? [] t.instances.length
    rw [Scope.instanceAt?_nil, Scope.instanceAt?_nil, List.getElem?_eq_none (Nat.le_refl _),
      List.getElem?_eq_getElem (by omega)] at hseat
    nomatch hseat
  · by_contra hlt
    have hseat := h.instanceAt? [] s.instances.length
    rw [Scope.instanceAt?_nil, Scope.instanceAt?_nil, List.getElem?_eq_none (Nat.le_refl _),
      List.getElem?_eq_getElem (by omega)] at hseat
    nomatch hseat

/-- What two instances have in common under `R`, circuits that correspond have in common. -/
theorem Scope.Corresponds.map_eq {α : Type} {f : Instance → α} (h : s.Corresponds R t)
    (hf : ∀ i j, R i j → f i = f j) : s.instances.map f = t.instances.map f := by
  refine map_eq_map_of_getElem? h.length_eq fun k i j hi hj => ?_
  exact hf i j (rel_some (h.instanceAt? [] k) hi hj)

/-- What corresponds on a seat. -/
theorem Scope.Corresponds.getElem? (h : s.Corresponds R t) {k : Nat} {i j : Instance}
    (hi : s.instances[k]? = some i) (hj : t.instances[k]? = some j) : i.Corresponds R j :=
  rel_some (Scope.corresponds_iff.1 h k) hi hj

end Corresponds

/-! ## Updates at the top -/

/-- **What is on a seat after an update**: the first instance of the id has changed. -/
theorem getElem?_updateInstance (scope : List Instance) (id : String) (f : Instance → Instance)
    (k : Nat) :
    (updateInstance scope id f)[k]? =
      if seat? scope id = some k then (scope[k]?).map f else scope[k]? := by
  induction scope generalizing k with
  | nil => simp [updateInstance, seat?]
  | cons i rest ih =>
    have hseat : seat? (i :: rest) id =
        if i.id = id then some 0 else (seat? rest id).map (· + 1) := by
      unfold seat?
      rw [List.findIdx?_cons]
      by_cases hid : i.id = id <;> simp [hid]
    rw [updateInstance, hseat]
    by_cases hid : i.id = id
    · rw [if_pos hid, if_pos hid]
      cases k <;> simp
    · rw [if_neg hid, if_neg hid]
      cases k with
      | zero => simp
      | succ k => simp [ih]

/-- Scopes of one list of ids have their first instances of an id on one seat. -/
theorem findInstance?_rel {R : Instance → Instance → Prop} {scope scope' : List Instance}
    (hids : scope.map Instance.id = scope'.map Instance.id)
    (h : ∀ k : Nat, Option.Rel R (scope[k]?) (scope'[k]?)) (id : String) :
    Option.Rel R (findInstance? scope id) (findInstance? scope' id) := by
  rw [findInstance?_eq_seat, findInstance?_eq_seat, ← seat?_congr hids]
  cases seat? scope id with
  | none => exact .none
  | some k => exact h k

/-- **Updates of two scopes**, seat by seat: they need to match only where they happen. -/
theorem getElem?_updateInstance_rel {R : Instance → Instance → Prop} {scope scope' : List Instance}
    {id : String} {f g : Instance → Instance}
    (hids : scope.map Instance.id = scope'.map Instance.id)
    (h : ∀ k : Nat, Option.Rel R (scope[k]?) (scope'[k]?))
    (hfg : ∀ i j, findInstance? scope id = some i → findInstance? scope' id = some j → R i j →
      R (f i) (g j)) (k : Nat) :
    Option.Rel R ((updateInstance scope id f)[k]?) ((updateInstance scope' id g)[k]?) := by
  rw [getElem?_updateInstance, getElem?_updateInstance, ← seat?_congr hids]
  split
  · rename_i hseat
    have hk := h k
    have hfind : findInstance? scope id = scope[k]? := by rw [findInstance?_eq_seat, hseat]; rfl
    have hfind' : findInstance? scope' id = scope'[k]? := by
      rw [findInstance?_eq_seat, ← seat?_congr hids, hseat]
      rfl
    cases hi : scope[k]? <;> cases hj : scope'[k]? <;> rw [hi, hj] at hk
    · exact .none
    · nomatch hk
    · nomatch hk
    · cases hk with
      | some hij => exact .some (hfg _ _ (hfind.trans hi) (hfind'.trans hj) hij)
  · exact h k

/-- An update that leaves the insides alone leaves what is at a place inside alone. -/
theorem Scope.instanceAt?_updateInstance {f : Instance → Instance}
    (hf : ∀ i, (f i).inside? = i.inside?) (s : Scope) (id : String) (j : Nat) (path : List Nat)
    (k : Nat) :
    Scope.instanceAt? ⟨updateInstance s.instances id f, s.wires, s.inherited⟩ (j :: path) k =
      s.instanceAt? (j :: path) k := by
  have hinside : ((updateInstance s.instances id f)[j]?).bind Instance.inside? =
      (s.instances[j]?).bind Instance.inside? := by
    rw [getElem?_updateInstance]
    split
    · cases s.instances[j]? with
      | none => rfl
      | some i => exact hf i
    · rfl
  unfold instanceAt? at? inside?
  rw [hinside]

end Breadboard
