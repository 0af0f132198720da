import RenderGraph.Proofs.Superseded
import RenderGraph.Proofs.Targets
/-!
# Names of one redirect have one viewport

Each redirect is looked at once, and writes the viewport of either of its names under both, so in
general the order of redirects decides which viewport a name ends with. In a compile it does not: a
replacement is not superseded, and a name that a node declares is not either. A superseded name
then has no viewport of its own and is given that of its replacement, which stays
(`Scopes.get?_share`).

`viewport_of_current`: the viewport of a name is that of the first node that declares the current
form of the name.
-/

namespace RenderGraph

namespace Scopes

variable {viewports : List String}

/-- The viewport of the node at a position, unless it is the empty name. -/
def placed? (viewports : List String) (i : Nat) : Option String := (viewports[i]?).filter (· ≠ "")

theorem get?_declare (scopes : Scopes) (e : String × Nat) (name : String) :
    (declare viewports scopes e).get? name =
      if name = e.1 then (placed? viewports e.2).or (scopes.get? name) else scopes.get? name := by
  unfold declare placed?
  cases viewports[e.2]? with
  | none => simp
  | some v =>
    by_cases hv : v = ""
    · subst hv
      simp [Option.filter]
    · simp [hv, Table.get?_insert, Option.filter]

/-- What is declared has the viewport of its node, if that has one. -/
theorem get?_foldl_declare {declared : List (String × Nat)} (hnodup : (declared.map Prod.fst).Nodup) (name : String) :
    ∀ scopes : Scopes, (declared.foldl (declare viewports) scopes).get? name =
      ((declared.lookup name).bind (placed? viewports)).or (scopes.get? name) := by
  induction declared with
  | nil => intro scopes; rfl
  | cons e declared ih =>
    intro scopes
    obtain ⟨hnew, hnodup⟩ := List.nodup_cons.1 hnodup
    rw [List.foldl_cons, ih hnodup, get?_declare, Table.lookup_cons_eq_ite]
    split
    · subst name
      rw [(Table.lookup_eq_none_iff_not_mem e.1 declared).2 hnew]
      rfl
    · rfl

/-- A superseded name without a viewport gets that of its replacement, which keeps it. -/
theorem get?_share {scopes : Scopes} {e : String × String} (hold : scopes.get? e.1 = none) (name : String) :
    (share scopes e).get? name = if name = e.1 then scopes.get? e.2 else scopes.get? name := by
  unfold share
  rw [hold, Option.none_or]
  cases hnew : scopes.get? e.2 with
  | none =>
    change scopes.get? name = _
    by_cases hname : name = e.1
    · rw [if_pos hname, hname, hold]
    · rw [if_neg hname]
  | some v =>
    simp only [Table.get?_insert]
    by_cases hname : name = e.2
    · simp [hname, hnew]
    · rw [if_neg hname]

/-- Redirects that no other redirect goes on from all take the viewports that were there before the first one. -/
theorem get?_foldl_share {redirects : List (String × String)} (hnodup : (redirects.map Prod.fst).Nodup)
    (hflat : ∀ e ∈ redirects, e.2 ∉ redirects.map Prod.fst) (name : String) :
    ∀ scopes : Scopes, (∀ e ∈ redirects, scopes.get? e.1 = none) →
      (redirects.foldl share scopes).get? name = scopes.get? ((redirects.lookup name).getD name) := by
  induction redirects with
  | nil => intro scopes _; rfl
  | cons e redirects ih =>
    intro scopes hold
    obtain ⟨hnew, hnodup⟩ := List.nodup_cons.1 hnodup
    have hshare := get?_share (hold e List.mem_cons_self)
    have hrest : ∀ e' ∈ redirects, e'.1 ≠ e.1 := fun e' he' h => hnew (h ▸ List.mem_map_of_mem he')
    rw [List.foldl_cons, ih hnodup (fun e' he' h => hflat e' (List.mem_cons_of_mem _ he') (List.mem_cons_of_mem _ h)),
      hshare, Table.lookup_cons_eq_ite]
    · by_cases hname : name = e.1
      · subst name
        rw [(Table.lookup_eq_none_iff_not_mem e.1 redirects).2 hnew, Option.getD_none, if_pos rfl, if_pos rfl,
          Option.getD_some]
      · rw [if_neg hname, if_neg]
        -- What the rest of the redirects lead to is not superseded here.
        cases hlookup : redirects.lookup name with
        | none => exact hname
        | some target =>
          obtain ⟨before, after, heq, -⟩ := List.lookup_eq_some_iff.1 hlookup
          intro h
          have hmem : (name, target) ∈ redirects := by
            rw [heq]
            exact List.mem_append_right _ List.mem_cons_self
          exact hflat (name, target) (List.mem_cons_of_mem _ hmem) (List.mem_cons.2 (.inl h))
    · intro e' he'
      rw [hshare, if_neg (hrest e' he')]
      exact hold e' (List.mem_cons_of_mem _ he')

/-- If no replacement and no declared name is superseded, a name has the viewport of the node that declares its
replacement. -/
theorem get?_of {declared : Table String Nat} {redirects : Table String String}
    (hflat : ∀ a b, redirects.get? a = some b → redirects.get? b = none)
    (hdeclared : ∀ a b, redirects.get? a = some b → declared.get? a = none) (name : String) :
    (Scopes.of declared viewports redirects).get? name =
      (declared.get? ((redirects.get? name).getD name)).bind (placed? viewports) := by
  have hentry : ∀ e ∈ redirects.entries, redirects.get? e.1 = some e.2 := fun e he => (Table.get?_eq_some_iff _ _ _).2 he
  have hstart (a : String) : (declared.entries.foldl (declare viewports) .empty).get? a =
      (declared.get? a).bind (placed? viewports) := by
    rw [get?_foldl_declare declared.keys_nodup, Table.get?_empty, Option.or_none]
    rfl
  have hshared := get?_foldl_share redirects.keys_nodup
    (fun e he => (redirects.get?_eq_none_iff e.2).1 (hflat e.1 e.2 (hentry e he))) name
    (declared.entries.foldl (declare viewports) .empty) fun e he => by
      rw [hstart, hdeclared e.1 e.2 (hentry e he)]
      rfl
  rw [Scopes.of, hshared, hstart]
  rfl

/-- Were two superseded names declared, with one replacement, the later redirect would have its way with that. -/
example :
    let scopes := Scopes.of (.ofList [("color", 0), ("overlay", 1)]) ["main", "side"]
      (.ofList [("color", "screen"), ("overlay", "screen")])
    scopes.get? "color" = some "main" ∧ scopes.get? "screen" = some "side" := by
  decide

end Scopes

namespace Compile

open Naming

/-- A name that a node declares is not superseded. -/
theorem redirect?_of_declared {s : Snapshot} {name : String} {i : Nat}
    (h : (declarations s (resolve s.nodes s.links)).get? name = some i) :
    (resolve s.nodes s.links).redirect? name = none := by
  rw [get?_declarations] at h
  obtain ⟨e, he, -⟩ := Option.map_eq_some_iff.1 h
  have hname : declaredName? (resolve s.nodes s.links) e = some name := of_decide_eq_true (List.find?_some he :)
  unfold declaredName? at hname
  split at hname
  · obtain ⟨o, -, hout⟩ := Option.bind_eq_some_iff.1 hname
    exact redirect?_of_output rfl hout
  · cases hname

/-- The viewport of the node that declares a name is that of the first frame around it. -/
theorem placed?_of_declared (s : Snapshot) (name : String) :
    ((declarations s (resolve s.nodes s.links)).get? name).bind (Scopes.placed? s.viewports) =
      (declaring? s name).bind fun e =>
        ((s.frames.find? fun f => f.contains e.1).map Frame.viewport).filter (· ≠ "") := by
  have hget : (declarations s (resolve s.nodes s.links)).get? name = (declaring? s name).map Prod.snd :=
    get?_declarations _ name
  rw [hget, Option.bind_map]
  cases he : declaring? s name with
  | none => rfl
  | some e =>
    have hnode := List.mem_of_find?_eq_some he
    rw [Snapshot.indexed, List.mem_zipIdx_iff_getElem?] at hnode
    change Scopes.placed? s.viewports e.2 =
      ((s.frames.find? fun f => f.contains e.1).map Frame.viewport).filter (· ≠ "")
    rw [Scopes.placed?, Snapshot.viewports, List.getElem?_map, hnode, Option.map_some, viewportOf]
    cases s.frames.find? fun f => f.contains e.1 <;> simp

/-- The viewport of a name in a compile is that of its current form: a name has one just if the first node that declares
its current form lies in a frame, the first one around it, whose viewport is not the empty name. So a superseded name and
its replacement have the same. -/
theorem viewport_of_current (s : Snapshot) :
    let r := resolve s.nodes s.links
    let scopes := Scopes.of (declarations s r) s.viewports r.redirects
    (∀ name v, scopes.get? name = some v ↔ v ≠ "" ∧ ∃ n i f,
      declaring? s (r.current name) = some (n, i) ∧ (s.frames.find? fun f => f.contains n) = some f ∧ f.viewport = v) ∧
    ∀ old new, r.redirect? old = some new → scopes.get? old = scopes.get? new := by
  intro r scopes
  have hflat : Flat r := flat_resolve s.nodes s.links
  have hget (name : String) : scopes.get? name = (declaring? s (r.current name)).bind fun e =>
      ((s.frames.find? fun f => f.contains e.1).map Frame.viewport).filter (· ≠ "") := by
    refine (Scopes.get?_of hflat (fun a b hab => ?_) name).trans (placed?_of_declared s _)
    rw [Option.eq_none_iff_forall_ne_some]
    intro i hi
    have hnone : r.redirect? a = none := redirect?_of_declared hi
    rw [show r.redirect? a = some b from hab] at hnone
    cases hnone
  refine ⟨fun name v => ?_, fun old new h => ?_⟩
  · rw [hget]
    simp only [Option.bind_eq_some_iff, Option.filter_eq_some_iff, Option.map_eq_some_iff, Prod.exists, decide_eq_true_eq]
    constructor
    · rintro ⟨n, i, he, ⟨f, hf, rfl⟩, hv⟩
      exact ⟨hv, n, i, f, he, hf, rfl⟩
    · rintro ⟨hv, n, i, f, he, hf, rfl⟩
      exact ⟨n, i, he, ⟨f, hf, rfl⟩, hv⟩
  · have hcurrent : r.current old = new := by rw [current, h, Option.getD_some]
    rw [hget, hget, ← hcurrent, hflat.current_current]

/-- A color pass that is redirected into a render target inside a frame, and a depth pass that is redirected into one
beside it. -/
def halfFramed : Snapshot where
  name := "half framed"
  nodes := [Graph.standardNode 0 "FBO", { Graph.standardNode 1 "FBO" with position := ⟨Binary.ofNat 1000, Binary.ofNat 0⟩ },
    Graph.standardNode 2 "ColorPass", Graph.standardNode 3 "DepthPass"]
  links := [⟨0, "output", 2, "output_res_target"⟩, ⟨1, "output", 3, "depth_res_target"⟩]
  frames := [⟨"Frame", "main", .origin, ⟨Binary.ofNat 640, Binary.ofNat 480⟩⟩]

/-- The viewport of the frame is that of the first render target and of the name that it replaced. The second one and the
name that it replaced have none. -/
theorem halfFramed_scopes :
    let r := resolve halfFramed.nodes halfFramed.links
    let scopes := Scopes.of (declarations halfFramed r) halfFramed.viewports r.redirects
    r.redirect? "ColorPass_2_output_res" = some "fbo_0" ∧ r.redirect? "DepthPass_3_depth_res" = some "fbo_1" ∧
      scopes.get? "fbo_0" = some "main" ∧ scopes.get? "ColorPass_2_output_res" = some "main" ∧
      scopes.get? "fbo_1" = none ∧ scopes.get? "DepthPass_3_depth_res" = none := by
  intro r scopes
  obtain ⟨hcurrent, hshared⟩ := viewport_of_current halfFramed
  have hcolor : r.redirect? "ColorPass_2_output_res" = some "fbo_0" := by decide +kernel
  have hdepth : r.redirect? "DepthPass_3_depth_res" = some "fbo_1" := by decide +kernel
  have hframed : scopes.get? "fbo_0" = some "main" := by
    refine (hcurrent "fbo_0" "main").2 ⟨by decide, Graph.standardNode 0 "FBO", 0, halfFramed.frames[0], ?_⟩
    decide +kernel
  have hbeside : scopes.get? "fbo_1" = none := by
    rw [Option.eq_none_iff_forall_ne_some]
    intro v hv
    obtain ⟨-, n, i, f, hdeclares, hf, -⟩ := (hcurrent "fbo_1" v).1 hv
    have hnode : (declaring? halfFramed (r.current "fbo_1")).all fun e => (halfFramed.frames.find? fun f => f.contains e.1).isNone := by
      decide +kernel
    rw [hdeclares, Option.all_some, hf] at hnode
    cases hnode
  exact ⟨hcolor, hdepth, hframed, (hshared _ _ hcolor).trans hframed, hbeside, (hshared _ _ hdepth).trans hbeside⟩

end Compile

end RenderGraph
