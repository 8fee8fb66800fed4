/-
Stores that differ only in what NULL scalars hide.

Stores are twins if they are alike but for values in corresponding places, which are
twins.  Values show alike in twin stores, count as true or not alike, and are equal
or not alike; and a change that puts twins into corresponding places leads from twin
stores to twin stores.
-/
import TreeWalk.Proofs.Store.Equality
import TreeWalk.Proofs.Twin.Value

namespace TreeWalk

/-! ## Tables -/

section Cells

variable {α : Type}

/-- Tables of one size with related cells. -/
structure Cells (R : α → α → Prop) (d : α) (xs ys : Array α) : Prop where
  size_eq : xs.size = ys.size
  cell : ∀ i, R (xs.getD i d) (ys.getD i d)

namespace Cells

variable {R : α → α → Prop} {d a b : α} {xs ys : Array α} {i : Nat}

theorem refl (hR : ∀ a, R a a) (xs : Array α) : Cells R d xs xs := ⟨rfl, fun _ => hR _⟩

theorem push (h : Cells R d xs ys) (hab : R a b) : Cells R d (xs.push a) (ys.push b) := by
  refine ⟨by rw [Array.size_push, Array.size_push, h.size_eq], fun j => ?_⟩
  have hcell := h.cell j
  simp only [Array.getD_eq_getD_getElem?, Array.getElem?_push, h.size_eq] at hcell ⊢
  split
  · exact hab
  · exact hcell

theorem withCell (h : Cells R d xs ys) :
    Cells R d (Store.withCell xs i d) (Store.withCell ys i d) := by
  refine ⟨?_, fun j => ?_⟩
  · have hsize := h.size_eq
    unfold Store.withCell
    rw [hsize]
    split
    · exact hsize
    · simp only [Array.size_append, Array.size_replicate, hsize]
  · rw [Store.getD_withCell, Store.getD_withCell]
    exact h.cell j

theorem set (h : Cells R d xs ys) (hab : R a b) :
    Cells R d (xs.setIfInBounds i a) (ys.setIfInBounds i b) := by
  refine ⟨by rw [Array.size_setIfInBounds, Array.size_setIfInBounds, h.size_eq], fun j => ?_⟩
  have hsize := h.size_eq
  have hcell := h.cell j
  simp only [Array.getD_eq_getD_getElem?, Array.getElem?_setIfInBounds, h.size_eq] at hcell ⊢
  split
  · split
    · exact hab
    · next hout =>
      rw [Array.getElem?_eq_none (by omega), Array.getElem?_eq_none (by omega)] at hcell
      exact hcell
  · exact hcell

theorem modify {f g : α → α} (h : Cells R d xs ys) (hfg : ∀ a b, R a b → R (f a) (g b)) :
    Cells R d (xs.modify i f) (ys.modify i g) := by
  refine ⟨by rw [Array.size_modify, Array.size_modify, h.size_eq], fun j => ?_⟩
  have hsize := h.size_eq
  have hcell := h.cell j
  simp only [Array.getD_eq_getD_getElem?, Array.getElem?_modify] at hcell ⊢
  split
  · by_cases hj : j < ys.size
    · have hj' : j < xs.size := by omega
      rw [Array.getElem?_eq_getElem hj, Array.getElem?_eq_getElem hj'] at hcell ⊢
      exact hfg _ _ hcell
    · rw [Array.getElem?_eq_none (by omega), Array.getElem?_eq_none (by omega)] at hcell ⊢
      exact hcell
  · exact hcell

end Cells
end Cells

/-! ## Cells -/

/-- Twins under the same label. -/
def LabeledTwin {κ : Type} (a b : κ × Value) : Prop := a.1 = b.1 ∧ a.2.Twin b.2

theorem labeledTwins_refl {κ : Type} (xs : List (κ × Value)) : List.Forall₂ LabeledTwin xs xs :=
  List.forall₂_same.mpr fun a _ => ⟨rfl, .same a.2⟩

theorem rel_assoc_get? {xs ys : Assoc Value} (h : List.Forall₂ LabeledTwin xs ys) (name : String) :
    Option.Rel Value.Twin (xs.get? name) (ys.get? name) := by
  induction h with
  | nil => exact .none
  | @cons a b _ _ hab _ ih =>
    obtain ⟨key, v⟩ := a
    obtain ⟨key', w⟩ := b
    obtain ⟨rfl, hvw⟩ := hab
    unfold Assoc.get?
    split
    · exact .some hvw
    · exact ih

structure Scope.Twin (s t : Scope) : Prop where
  parent_eq : s.parent = t.parent
  frame_eq : s.frame = t.frame
  bindings : List.Forall₂ LabeledTwin s.bindings t.bindings

structure Channel.Twin (c d : Channel) : Prop where
  capacity_eq : c.capacity = d.capacity
  closed_eq : c.closed = d.closed
  signalled_eq : c.signalled = d.signalled
  nextTicket_eq : c.nextTicket = d.nextTicket
  buffer : Value.Twins c.buffer d.buffer
  offers : List.Forall₂ LabeledTwin c.offers d.offers

structure HostObject.Twin (o p : HostObject) : Prop where
  run_eq : o.run = p.run
  write_eq : o.write = p.write
  text_eq : o.text = p.text
  items : Option.Rel Value.Twins o.items p.items

/-- The store without the tables that hold values. -/
def Store.bare (σ : Store) : Store :=
  { σ with arrays := #[], hashes := #[], scopes := #[], channels := #[], hosts := #[], registry := [] }

structure Store.Twin (σ τ : Store) : Prop where
  arrays : Cells (fun xs ys => Value.Twins xs.toList ys.toList) #[] σ.arrays τ.arrays
  hashes : Cells Dict.Twin .empty σ.hashes τ.hashes
  scopes : Cells Scope.Twin default σ.scopes τ.scopes
  channels : Cells Channel.Twin default σ.channels τ.channels
  hosts : Cells HostObject.Twin default σ.hosts τ.hosts
  registry : List.Forall₂ LabeledTwin σ.registry τ.registry
  bare_eq : σ.bare = τ.bare

namespace Store.Twin

theorem refl (σ : Store) : σ.Twin σ where
  arrays := .refl (fun xs => .refl xs.toList) σ.arrays
  hashes := .refl .refl σ.hashes
  scopes := .refl (fun s => ⟨rfl, rfl, labeledTwins_refl s.bindings⟩) σ.scopes
  channels := .refl (fun c => ⟨rfl, rfl, rfl, rfl, .refl c.buffer, labeledTwins_refl c.offers⟩) σ.channels
  hosts := .refl (fun o => ⟨rfl, rfl, rfl, rel_refl Value.Twins.refl o.items⟩) σ.hosts
  registry := labeledTwins_refl σ.registry
  bare_eq := rfl

variable {σ τ : Store} (h : σ.Twin τ)
include h

/-! ## Reading -/

theorem array (id : ArrayId) : Value.Twins (σ.array id).toList (τ.array id).toList :=
  h.arrays.cell id.index

theorem dict (id : HashId) : (σ.dict id).Twin (τ.dict id) := h.hashes.cell id.index

theorem scope (id : ScopeId) : (σ.scope id).Twin (τ.scope id) := h.scopes.cell id.index

theorem channel (id : ChannelId) : (σ.channel id).Twin (τ.channel id) := h.channels.cell id.index

theorem host (id : HostId) : (σ.host id).Twin (τ.host id) := h.hosts.cell id.index

theorem members (id : ScopeId) : List.Forall₂ LabeledTwin (σ.members id) (τ.members id) :=
  (h.scope id).bindings

theorem getLocal? (id : ScopeId) (name : String) :
    Option.Rel Value.Twin (σ.getLocal? id name) (τ.getLocal? id name) :=
  rel_assoc_get? (h.members id) name

theorem structFields (id : ScopeId) (methods : List String) :
    List.Forall₂ LabeledTwin (σ.structFields id methods) (τ.structFields id methods) := by
  unfold Store.structFields Assoc.sorted
  refine rel_mergeSort (rel_filter_of (h.members id) fun a b hab => ?_)
    fun a b a' b' hab hab' => ?_
  · rw [hab.1]
  · rw [hab.1, hab'.1]

theorem waitGroup_eq (id : WaitGroupId) : σ.waitGroup id = τ.waitGroup id :=
  congrArg (·.waitGroup id) h.bare_eq

theorem mutex_eq (id : MutexId) : σ.mutex id = τ.mutex id := congrArg (·.mutex id) h.bare_eq

theorem rwMutex_eq (id : RWMutexId) : σ.rwMutex id = τ.rwMutex id :=
  congrArg (·.rwMutex id) h.bare_eq

theorem cond_eq (id : CondId) : σ.cond id = τ.cond id := congrArg (·.cond id) h.bare_eq

theorem once_eq (id : OnceId) : σ.once id = τ.once id := congrArg (·.once id) h.bare_eq

theorem size_array_eq (id : ArrayId) : (σ.array id).size = (τ.array id).size := by
  rw [← Array.length_toList, ← Array.length_toList, (h.array id).length_eq]

theorem depth_eq : σ.depth = τ.depth := by
  unfold Store.depth
  rw [h.arrays.size_eq, h.hashes.size_eq, h.scopes.size_eq]

end Store.Twin

/-! ## Showing -/

namespace Store

variable {σ τ : Store} {inner inner' : Value → String}

mutual

theorem showWith_eq (h : σ.Twin τ) (hinner : ∀ v w, v.Twin w → inner v = inner' w) :
    ∀ v w : Value, v.Twin w → σ.showWith inner v = τ.showWith inner' w
  | .tuple xs _, _, .same _ => by
    rw [showWith, showWith, showItems_eq h hinner xs xs (.refl xs)]
  | .tuple xs _, .tuple ys _, .tuple _ hxy => by
    rw [showWith, showWith, showItems_eq h hinner xs ys hxy]
  | .array id, _, .same _ => by
    rw [showWith, showWith, map_eq_of_rel (h.array id) hinner]
  | .hash id, _, .same _ => by
    rw [showWith, showWith, map_eq_of_rel (h.dict id).toList fun a b hab => ?_]
    rw [hinner _ _ hab.1, hinner _ _ hab.2]
  | .struct scope methods, _, .same _ => by
    rw [showWith, showWith, map_eq_of_rel (h.structFields scope methods) fun a b hab => ?_]
    dsimp only
    rw [hab.1, hinner _ _ hab.2]
  | .enum scope variants, _, .same _ => by
    rw [showWith, showWith]
    congr 4
    funext name
    obtain ⟨hs, ht⟩ | ⟨v, w, hs, ht, hvw⟩ := rel_cases (h.getLocal? scope name)
    · rw [hs, ht]
    · rw [hs, ht]
      dsimp only
      rw [hinner v w hvw]
  | .int _, _, .same _ => rfl
  | .int _, _, .int _ _ => rfl
  | .float _, _, .same _ => rfl
  | .float _, _, .float _ _ => rfl
  | .str _, _, .same _ => rfl
  | .str _, _, .str _ _ => rfl
  | .bool _, _, .same _ => rfl
  | .bool _, _, .bool _ _ _ => rfl
  | .nil _, _, .same _ => rfl
  | .function _, _, .same _ => rfl
  | .native _, _, .same _ => rfl
  | .range _, _, .same _ => rfl
  | .channel _, _, .same _ => rfl
  | .module _, _, .same _ => rfl
  | .object _, _, .same _ => rfl

theorem showItems_eq (h : σ.Twin τ) (hinner : ∀ v w, v.Twin w → inner v = inner' w) :
    ∀ xs ys : List Value, Value.Twins xs ys → σ.showItems inner xs = τ.showItems inner' ys
  | [], [], .nil => rfl
  | v :: vs, w :: ws, .cons hvw hrest => by
    rw [showItems, showItems, showItems_eq h hinner vs ws hrest, hvw.string?_eq,
      showWith_eq h hinner v w hvw]

end

namespace Twin

variable {v w v' w' : Value} (h : σ.Twin τ)
include h

theorem displayWithin_eq (fuel : Nat) (hvw : v.Twin w) :
    σ.displayWithin fuel v = τ.displayWithin fuel w := by
  induction fuel generalizing v w with
  | zero => exact showWith_eq h (fun _ _ _ => rfl) v w hvw
  | succ fuel ih =>
    refine showWith_eq h (fun a b hab => ?_) v w hvw
    unfold Value.quoted
    rw [hab.string?_eq]
    split
    · rfl
    · exact ih hab

theorem display_eq (hvw : v.Twin w) : σ.display v = τ.display w := by
  unfold display
  rw [h.depth_eq]
  exact h.displayWithin_eq _ hvw

theorem inspect_eq (hvw : v.Twin w) : σ.inspect v = τ.inspect w := by
  unfold inspect Value.quoted
  rw [hvw.string?_eq, h.display_eq hvw]

omit h in
theorem truthy_of_not_valid (hv : v.isValid = false) : σ.truthy v = false := by
  cases v with
  | int n => exact Bool.and_eq_false_imp.mpr fun hvalid => absurd (hvalid.symm.trans hv) nofun
  | float x => exact Bool.and_eq_false_imp.mpr fun hvalid => absurd (hvalid.symm.trans hv) nofun
  | str s => exact Bool.and_eq_false_imp.mpr fun hvalid => absurd (hvalid.symm.trans hv) nofun
  | bool b => exact Bool.and_eq_false_imp.mpr fun hvalid => absurd (hvalid.symm.trans hv) nofun
  | _ => cases hv

theorem truthy_eq (hvw : v.Twin w) : σ.truthy v = τ.truthy w := by
  cases hvalid : v.isValid with
  | false => rw [truthy_of_not_valid hvalid, truthy_of_not_valid (hvw.isValid_eq.symm.trans hvalid)]
  | true =>
    obtain ⟨rfl, _⟩ | ⟨xs, ys, multi, rfl, rfl, hxy⟩ := hvw.eq_or_tuple hvalid
    · cases v with
      | array id =>
        change (!(σ.array id).isEmpty) = !(τ.array id).isEmpty
        rw [Array.isEmpty, Array.isEmpty, h.size_array_eq]
      | hash id =>
        change (!(σ.dict id).isEmpty) = !(τ.dict id).isEmpty
        rw [(h.dict id).isEmpty_eq]
      | _ => rfl
    · cases hxy with
      | nil => rfl
      | cons _ _ => rfl

/-! ## Comparing -/

theorem equalDicts_eq {d d' e e' : Dict} (hd : d.Twin d') (he : e.Twin e') :
    σ.equalDicts d e = τ.equalDicts d' e' := by
  unfold equalDicts
  rw [hd.size_eq, he.size_eq, all_eq_of_rel hd.toList fun a b hab => ?_]
  rw [hab.1.key?_eq]
  cases b.key.key? with
  | none => rfl
  | some key =>
    rw [Option.bind_some, Option.bind_some]
    obtain ⟨hx, hy⟩ | ⟨x, y, hx, hy, hxy⟩ := rel_cases (he.get? key)
    · rw [hx, hy]
    · rw [hx, hy]
      dsimp only
      rw [h.display_eq hxy.1, h.display_eq hxy.2, h.display_eq hab.1, h.display_eq hab.2]

end Twin

theorem equalInvalid_eq {v v' w w' : Value} (hv : v.Twin v') (hw : w.Twin w') :
    equalInvalid v w = equalInvalid v' w' := by
  unfold equalInvalid
  rw [hv.isNil_eq, hw.isNil_eq, hv.isValid_eq, hw.isValid_eq, hv.kind_eq, hw.kind_eq]

section Equality

variable {inner inner' : Value → Value → Bool}

/-- What a comparison of the values `v` with others answers in both stores. -/
def ComparesAlike (σ τ : Store) (inner inner' : Value → Value → Bool) (v : Value) : Prop :=
  ∀ v' w w', v.Twin v' → w.Twin w' → σ.equalWith? inner v w = τ.equalWith? inner' v' w'

theorem equalItems_eq {xs xs' ys ys' : List Value}
    (hitems : ∀ x ∈ xs, ComparesAlike σ τ inner inner' x) (hx : Value.Twins xs xs')
    (hy : Value.Twins ys ys') : σ.equalItems inner xs ys = τ.equalItems inner' xs' ys' := by
  induction hx generalizing ys ys' with
  | nil =>
    cases hy with
    | nil => rfl
    | cons _ _ => rfl
  | @cons x x' _ _ hxx _ ih =>
    cases hy with
    | nil => rfl
    | cons hyy hrest =>
      have hhead := hitems x List.mem_cons_self x' _ _ hxx hyy
      have htail := ih (fun z hz => hitems z (List.mem_cons_of_mem _ hz)) hrest
      rw [equalItems, equalItems, hhead, htail]

theorem equalWith?_tuples {xs ys : List Value} {m n : Bool} :
    σ.equalWith? inner (.tuple xs m) (.tuple ys n) = some (σ.equalItems inner xs ys) := by
  rw [equalWith?.eq_def]
  rfl

/-- A tuple is equal to nothing but tuples. -/
theorem equalWith?_tuple_left {xs : List Value} {m : Bool} {w : Value} (hvalid : w.isValid = true)
    (hw : ∀ ys n, w ≠ .tuple ys n) : σ.equalWith? inner (.tuple xs m) w = some false := by
  rw [equalWith?_of_valid rfl hvalid]
  cases w.number? with
  | some y => rfl
  | none =>
    cases w with
    | tuple ys n => exact absurd rfl (hw ys n)
    | _ => rfl

theorem equalWith?_tuple_right {v : Value} {ys : List Value} {n : Bool} (hvalid : v.isValid = true)
    (hv : ∀ xs m, v ≠ .tuple xs m) : σ.equalWith? inner v (.tuple ys n) = some false := by
  rw [equalWith?_of_valid hvalid rfl]
  cases v.number? with
  | some x => rfl
  | none =>
    cases v with
    | tuple xs m => exact absurd rfl (hv xs m)
    | _ => rfl

/-- Values that are no tuples compare alike with themselves in both stores. -/
theorem equalWith?_same (h : σ.Twin τ)
    (hinner : ∀ a a' b b', a.Twin a' → b.Twin b' → inner a b = inner' a' b') {v : Value} (w : Value)
    (hv : ∀ xs m, v ≠ .tuple xs m) : σ.equalWith? inner v w = τ.equalWith? inner' v w := by
  rw [equalWith?.eq_def, equalWith?.eq_def]
  dsimp only
  split
  · rfl
  · split
    · rfl
    · next i j _ =>
      rw [(h.array i).length_eq, (h.array j).length_eq,
        all_eq_of_rel (rel_zip (h.array i) (h.array j)) fun a b hab => hinner _ _ _ _ hab.1 hab.2]
    · rfl
    · rfl
    · rfl
    · next i j _ => rw [h.equalDicts_eq (h.dict i) (h.dict j)]
    · rfl
    · rfl
    · next xs m ys n _ => exact absurd rfl (hv xs m)
    · rfl
    · rfl

theorem comparesAlike (h : σ.Twin τ)
    (hinner : ∀ a a' b b', a.Twin a' → b.Twin b' → inner a b = inner' a' b') (v : Value) :
    ComparesAlike σ τ inner inner' v := by
  induction v using Value.tuple_induction with
  | step v ih =>
    intro v' w w' hv hw
    by_cases hvalid : (!v.isValid || !w.isValid) = true
    · have hvalid' := hvalid
      rw [hv.isValid_eq, hw.isValid_eq] at hvalid'
      rw [equalWith?_of_not_valid hvalid, equalWith?_of_not_valid hvalid', equalInvalid_eq hv hw]
    · rw [Bool.not_eq_true, Bool.or_eq_false_iff, Bool.not_eq_false', Bool.not_eq_false'] at hvalid
      obtain ⟨rfl, hntuple⟩ | ⟨xs, xs', m, rfl, rfl, hxs⟩ := hv.eq_or_tuple hvalid.1
      · obtain ⟨rfl, _⟩ | ⟨ys, ys', n, rfl, rfl, hys⟩ := hw.eq_or_tuple hvalid.2
        · exact equalWith?_same h hinner w hntuple
        · rw [equalWith?_tuple_right hvalid.1 hntuple, equalWith?_tuple_right hvalid.1 hntuple]
      · obtain ⟨rfl, hntuple⟩ | ⟨ys, ys', n, rfl, rfl, hys⟩ := hw.eq_or_tuple hvalid.2
        · rw [equalWith?_tuple_left hvalid.2 hntuple, equalWith?_tuple_left hvalid.2 hntuple]
        · rw [equalWith?_tuples, equalWith?_tuples, equalItems_eq (ih xs m rfl) hxs hys]

end Equality

namespace Twin

variable {v v' w w' : Value} (h : σ.Twin τ)
include h

theorem equalWithin?_eq (fuel : Nat) (hv : v.Twin v') (hw : w.Twin w') :
    σ.equalWithin? fuel v w = τ.equalWithin? fuel v' w' := by
  induction fuel generalizing v v' w w' with
  | zero => exact comparesAlike h (fun _ _ _ _ _ _ => rfl) v v' w w' hv hw
  | succ fuel ih =>
    refine comparesAlike h (fun a a' b b' ha hb => ?_) v v' w w' hv hw
    rw [ih ha hb]

theorem equal?_eq (hv : v.Twin v') (hw : w.Twin w') : σ.equal? v w = τ.equal? v' w' := by
  unfold equal?
  rw [h.depth_eq]
  exact h.equalWithin?_eq _ hv hw

theorem equal_eq (hv : v.Twin v') (hw : w.Twin w') : σ.equal v w = τ.equal v' w' := by
  unfold equal
  rw [h.equal?_eq hv hw]

/-! ## Changing -/

theorem setArray {id : ArrayId} {xs ys : Array Value} (hxy : Value.Twins xs.toList ys.toList) :
    (σ.setArray id xs).Twin (τ.setArray id ys) := { h with arrays := h.arrays.set hxy }

theorem newArray (xs ys : Array Value) (hxy : Value.Twins xs.toList ys.toList) :
    (σ.newArray xs).1 = (τ.newArray ys).1 ∧ (σ.newArray xs).2.Twin (τ.newArray ys).2 := by
  refine ⟨?_, { h with arrays := h.arrays.push hxy }⟩
  unfold Store.newArray
  rw [h.arrays.size_eq]

theorem modifyDict {id : HashId} {f g : Dict → Dict} (hfg : ∀ d e, d.Twin e → (f d).Twin (g e)) :
    (σ.modifyDict id f).Twin (τ.modifyDict id g) := { h with hashes := h.hashes.withCell.modify hfg }

theorem newDict {d e : Dict} (hde : d.Twin e) :
    (σ.newDict d).1 = (τ.newDict e).1 ∧ (σ.newDict d).2.Twin (τ.newDict e).2 := by
  refine ⟨?_, { h with hashes := h.hashes.push hde }⟩
  unfold Store.newDict
  rw [h.hashes.size_eq]

theorem setChannel {id : ChannelId} {c d : Channel} (hcd : c.Twin d) :
    (σ.setChannel id c).Twin (τ.setChannel id d) := { h with channels := h.channels.withCell.set hcd }

theorem newChannel {capacity : Nat} :
    (σ.newChannel capacity).1 = (τ.newChannel capacity).1 ∧
      (σ.newChannel capacity).2.Twin (τ.newChannel capacity).2 := by
  refine ⟨?_, { h with channels := h.channels.push ⟨rfl, rfl, rfl, rfl, .nil, .nil⟩ }⟩
  unfold Store.newChannel
  rw [h.channels.size_eq]

theorem setHostText {id : HostId} {text : String} :
    (σ.setHostText id text).Twin (τ.setHostText id text) :=
  have hid := h.host id
  { h with hosts := h.hosts.set ⟨hid.run_eq, hid.write_eq, rfl, hid.items⟩ }

-- What no value lives in is the same on both sides and stays so.
theorem setWaitGroup {id : WaitGroupId} {w : WaitGroup} :
    (σ.setWaitGroup id w).Twin (τ.setWaitGroup id w) :=
  { h with bare_eq := congrArg (·.setWaitGroup id w) h.bare_eq }

theorem setMutex {id : MutexId} {m : Mutex} : (σ.setMutex id m).Twin (τ.setMutex id m) :=
  { h with bare_eq := congrArg (·.setMutex id m) h.bare_eq }

theorem setRWMutex {id : RWMutexId} {m : RWMutex} : (σ.setRWMutex id m).Twin (τ.setRWMutex id m) :=
  { h with bare_eq := congrArg (·.setRWMutex id m) h.bare_eq }

theorem setCond {id : CondId} {c : Cond} : (σ.setCond id c).Twin (τ.setCond id c) :=
  { h with bare_eq := congrArg (·.setCond id c) h.bare_eq }

theorem setOnce {id : OnceId} {o : Once} : (σ.setOnce id o).Twin (τ.setOnce id o) :=
  { h with bare_eq := congrArg (·.setOnce id o) h.bare_eq }

theorem print {sink : Sink} {text : String} : (σ.print sink text).Twin (τ.print sink text) := by
  cases sink with
  | capture =>
    exact { h with bare_eq := congrArg (fun s => { s with output := s.output ++ text }) h.bare_eq }
  | discard => exact h

end Twin
end Store

/-! ## Channels -/

namespace Channel.Twin

variable {c d : Channel} {v w : Value} (h : c.Twin d)
include h

theorem length_eq : c.length = d.length := h.buffer.length_eq

theorem hasRoom_eq : c.hasRoom = d.hasRoom := by
  unfold hasRoom
  rw [h.buffer.length_eq, h.capacity_eq]

theorem offer? (hvw : v.Twin w) :
    Option.Rel (fun a b => a.1 = b.1 ∧ a.2.Twin b.2) (c.offer? v) (d.offer? w) := by
  unfold Channel.offer?
  rw [h.closed_eq, h.nextTicket_eq]
  split
  · exact .none
  · refine .some ⟨rfl, ?_⟩
    exact { h with
      closed_eq := rfl
      nextTicket_eq := rfl
      offers := List.rel_append h.offers (.cons ⟨rfl, hvw⟩ .nil) }

theorem dropOffer (ticket : Nat) : (c.dropOffer ticket).Twin (d.dropOffer ticket) :=
  { h with offers := rel_filter_of h.offers fun a b hab => by rw [hab.1] }

theorem offered? (ticket : Nat) :
    Option.Rel Value.Twin (c.offered? ticket) (d.offered? ticket) := by
  have hfind := rel_find? (p := fun a => a.1 = ticket) (q := fun b => b.1 = ticket) h.offers
    fun a b hab => by rw [hab.1]
  unfold Channel.offered?
  exact rel_map hfind fun _ _ hab => hab.2

theorem accept? (ticket : Nat) :
    Option.Rel Channel.Twin (c.accept? ticket) (d.accept? ticket) := by
  unfold Channel.accept?
  obtain ⟨hc, hd⟩ | ⟨v, w, hc, hd, hvw⟩ := rel_cases (h.offered? ticket)
  · rw [hc, hd]
    exact .none
  · rw [hc, hd, h.hasRoom_eq]
    dsimp only
    split
    · exact .some { h.dropOffer ticket with
        buffer := List.rel_append h.buffer (.cons hvw .nil) }
    · exact .none

theorem withdraw? (ticket : Nat) :
    Option.Rel Channel.Twin (c.withdraw? ticket) (d.withdraw? ticket) := by
  unfold Channel.withdraw?
  rw [rel_isSome (h.offered? ticket), h.signalled_eq]
  split
  · exact .some (h.dropOffer ticket)
  · exact .none

theorem settle? (ticket : Nat) :
    Option.Rel (fun a b => a.1 = b.1 ∧ a.2.Twin b.2) (c.settle? ticket) (d.settle? ticket) := by
  unfold Channel.settle?
  rw [← Option.not_isSome, ← Option.not_isSome, rel_isSome (h.offered? ticket)]
  split
  · exact .some ⟨rfl, h⟩
  · obtain ⟨hc, hd⟩ | ⟨a, b, hc, hd, hab⟩ := rel_cases (h.accept? ticket)
    · rw [hc, hd]
      exact rel_map (h.withdraw? ticket) fun _ _ hab => ⟨rfl, hab⟩
    · rw [hc, hd]
      exact .some ⟨rfl, hab⟩

theorem refill : c.refill.Twin d.refill := by
  have hoffers := h.offers
  unfold Channel.refill
  rw [h.closed_eq]
  split
  · next ticket v rest hc =>
    rw [hc] at hoffers
    obtain ⟨b, rest', hab, hrest, hd⟩ := List.forall₂_cons_left_iff.mp hoffers
    rw [hd]
    obtain ⟨ticket', w⟩ := b
    obtain rfl : ticket = ticket' := hab.1
    dsimp only
    split
    · exact h
    · obtain ⟨hc, hd⟩ | ⟨a, b, hc, hd, hab⟩ := rel_cases (h.accept? ticket)
      · rw [hc, hd]
        exact h
      · rw [hc, hd]
        exact hab
  · next hc =>
    rw [hc] at hoffers
    rw [List.forall₂_nil_left_iff.mp hoffers]
    exact h

theorem take? : Option.Rel (fun a b => a.1.Twin b.1 ∧ a.2.Twin b.2) c.take? d.take? := by
  have hbuffer := h.buffer
  unfold Channel.take?
  split
  · next v rest hc =>
    rw [hc] at hbuffer
    obtain ⟨w, rest', hvw, hrest, hd⟩ := List.forall₂_cons_left_iff.mp hbuffer
    rw [hd]
    exact .some ⟨hvw, { h with buffer := hrest }⟩
  · next hc =>
    rw [hc] at hbuffer
    rw [List.forall₂_nil_left_iff.mp hbuffer]
    exact .none

theorem isEmpty_buffer_eq : c.buffer.isEmpty = d.buffer.isEmpty := by
  rw [Bool.eq_iff_iff, List.isEmpty_iff_length_eq_zero, List.isEmpty_iff_length_eq_zero,
    h.buffer.length_eq]

theorem isEmpty_offers_eq : c.offers.isEmpty = d.offers.isEmpty := by
  rw [Bool.eq_iff_iff, List.isEmpty_iff_length_eq_zero, List.isEmpty_iff_length_eq_zero,
    h.offers.length_eq]

theorem ended_eq : c.ended = d.ended := by
  unfold Channel.ended
  rw [h.closed_eq, h.isEmpty_buffer_eq, h.isEmpty_offers_eq]

theorem meet? (ticket : Nat) :
    Option.Rel (fun a b => a.1.Twin b.1 ∧ a.2.Twin b.2) (c.meet? ticket) (d.meet? ticket) := by
  unfold Channel.meet?
  rw [h.isEmpty_buffer_eq]
  split
  · exact rel_map (h.offered? ticket) fun _ _ hvw => ⟨hvw, h.dropOffer ticket⟩
  · exact .none

theorem receive? :
    Option.Rel (fun a b => Option.Rel Value.Twin a.1 b.1 ∧ a.2.Twin b.2) c.receive? d.receive? := by
  have hoffers := h.offers
  unfold Channel.receive?
  obtain ⟨hc, hd⟩ | ⟨a, b, hc, hd, hab⟩ := rel_cases h.take?
  · rw [hc, hd, h.ended_eq, h.closed_eq]
    dsimp only
    split
    · exact .some ⟨.none, h⟩
    · split
      · exact .none
      · split
        · next ticket v rest hc' =>
          rw [hc'] at hoffers
          obtain ⟨⟨ticket', w⟩, rest', hvw, hrest, hd'⟩ := List.forall₂_cons_left_iff.mp hoffers
          rw [hd']
          obtain rfl : ticket = ticket' := hvw.1
          exact rel_map (h.meet? ticket) fun _ _ hab => ⟨.some hab.1, hab.2⟩
        · next hc' =>
          rw [hc'] at hoffers
          rw [List.forall₂_nil_left_iff.mp hoffers]
          exact .none
  · rw [hc, hd]
    exact .some ⟨.some hab.1, hab.2.refill⟩

theorem close : c.close.1 = d.close.1 ∧ c.close.2.Twin d.close.2 := by
  refine ⟨?_, { h with closed_eq := rfl, signalled_eq := rfl }⟩
  unfold Channel.close Channel.shut
  rw [h.closed_eq]

end Channel.Twin
end TreeWalk
