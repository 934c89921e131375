import Workboard.Proofs.Proper
import Workboard.Proofs.Refusal

/-! What a batch's mutations do to variables and comments.

A command of a batch that makes no variable and no comment leaves them all, or it sets or removes one that its
view has (`Board.TextStep`). A comment is told without its layer, which also changes when a layer is removed, and
without its time stamp. An `Aspect` is what is seen of one of them, and what commands do to that. -/

namespace Workboard

/-- The comment without its layer and its time stamp. -/
def Comment.text (c : Comment) : Comment := { c with layer := none, timestamp := 0 }

namespace Action

/-- Whether an action makes a variable or a comment. -/
def createsText : Action → Bool
  | createVariable _ | createComment _ => true
  | _ => false

/-- Whether an action makes, changes or removes a variable or a comment. -/
def changesTexts : Action → Bool
  | createVariable _ | createComment _ => true
  | updateVariable .. | deleteVariable _ | updateComment .. | deleteComment _ => true
  | _ => false

theorem changesTexts_mutation {a : Action} {s : References} {view : Board} {now : UInt64} {m : Mutation}
    (h : a.mutation s view now = .ok m) : m.changesTexts = a.changesTexts := by
  cases asks_of_mutation h <;> rfl

end Action

namespace Board

variable {b b' b'' view : Board} {m : Mutation} {a : Action} {now : UInt64} {x : String}

/-- What a comment says. -/
def commentText? (b : Board) (x : String) : Option Comment := (b.comments.get? x).map Comment.text

/-- Variables and comments are stored under their own ids, and none of these is empty. -/
structure Recorded (b : Board) : Prop where
  vars : b.vars.Keyed Variable.id
  comments : b.comments.Keyed Comment.id
  variableId : b.vars.get? "" = none
  commentId : b.comments.get? "" = none

/-- Variables stay, and what comments say. -/
structure SameTexts (b b' : Board) : Prop where
  vars : b'.vars = b.vars
  comments : ∀ x, b'.commentText? x = b.commentText? x

theorem SameTexts.refl (b : Board) : SameTexts b b := ⟨rfl, fun _ => rfl⟩

theorem SameTexts.trans (h : SameTexts b b') (h' : SameTexts b' b'') : SameTexts b b'' :=
  ⟨h'.vars.trans h.vars, fun x => (h'.comments x).trans (h.comments x)⟩

theorem SameTexts.of_comments (hvars : b'.vars = b.vars) (hcomments : b'.comments = b.comments) : SameTexts b b' := by
  refine ⟨hvars, fun x => ?_⟩
  unfold commentText?
  rw [hcomments]

theorem SameTexts.of_sameRest (h : SameRest b b') : SameTexts b b' := .of_comments h.vars h.comments

theorem SameTexts.recorded (h : SameTexts b b') (hb : b.Recorded) : b'.Recorded where
  vars := by
    rw [h.vars]
    exact hb.vars
  comments k c' hc' := by
    have hsame := h.comments k
    unfold commentText? at hsame
    rw [hc'] at hsame
    obtain ⟨c, hc, he⟩ := Option.map_eq_some_iff.mp hsame.symm
    have hid : c.text.id = c'.text.id := congrArg Comment.id he
    exact hid.symm.trans (hb.comments k c hc)
  variableId := by
    rw [h.vars]
    exact hb.variableId
  commentId := by
    have hsame := h.comments ""
    unfold commentText? at hsame
    rw [hb.commentId] at hsame
    exact Option.map_eq_none_iff.mp hsame

/-- Comments of a layer that is removed go to its parent and say the same. -/
theorem sameTexts_dissolveLayer (b : Board) (id : String) (parent : Option String) :
    SameTexts b (b.dissolveLayer id parent) := by
  refine ⟨rfl, fun x => ?_⟩
  simp only [commentText?, dissolveLayer, KeyMap.get?_mapValues, Option.map_map]
  cases b.comments.get? x with
  | none => rfl
  | some c =>
    simp only [Option.map_some, Function.comp_apply]
    split <;> rfl

/-- Other mutations leave variables and comments. -/
theorem sameTexts_perform (hm : m.changesTexts = false) : SameTexts b (b.perform m).board :=
  perform_related SameTexts.of_sameRest SameTexts.trans (fun h => by rw [hm] at h; cases h) (fun _ _ _ => .of_comments rfl rfl)
    sameTexts_dissolveLayer

theorem sameTexts_execute (hm : m.changesTexts = false) : SameTexts b (b.execute m).board :=
  board_execute (P := SameTexts b) (sameTexts_perform hm) fun _ h => h.trans (.of_comments rfl rfl)

/-- A mutation that is refused leaves variables and comments. -/
theorem sameTexts_of_error {e : BoardError} (h : (b.execute m).result = .error e) : SameTexts b (b.execute m).board := by
  cases hm : m.changesTexts with
  | false => exact sameTexts_execute hm
  | true =>
    have hperform := execute_of_error h
    rw [hperform] at h ⊢
    cases m with
    | upsertVariable v former => cases h
    | removeVariable id =>
      change (b.removeVariable id).result = _ at h
      show SameTexts b (b.removeVariable id).board
      unfold removeVariable at h ⊢
      split
      · rename_i hv
        rw [hv] at h
        cases h
      · exact .refl b
    | upsertComment c former layer =>
      change (b.upsertComment c layer).result = _ at h
      show SameTexts b (b.upsertComment c layer).board
      unfold upsertComment at h ⊢
      cases hlayer : b.needLayer? layer with
      | error e => exact .refl b
      | ok u =>
        rw [hlayer] at h
        cases h
    | removeComment id =>
      change (b.removeComment id).result = _ at h
      show SameTexts b (b.removeComment id).board
      unfold removeComment at h ⊢
      split
      · rename_i hc
        rw [hc] at h
        cases h
      · exact .refl b
    | _ => cases hm

/-! ### Steps -/

/-- What an applied command that makes no variable and no comment does to them. -/
inductive TextStep (now : UInt64) (view b : Board) (a : Action) (b' : Board) : Prop where
  | kept (other : a.changesTexts = false) (same : SameTexts b b')
  | setVariable (id : String) (edit : VariableEdit) (v : Variable) (action : a = .updateVariable id edit)
      (found : view.vars.get? id = some v) (vars : b'.vars = b.vars.insert id (edit.apply v))
      (comments : b'.comments = b.comments)
  | dropVariable (id : String) (v : Variable) (action : a = .deleteVariable id) (found : view.vars.get? id = some v)
      (vars : b'.vars = b.vars.erase id) (comments : b'.comments = b.comments)
  | setComment (id : String) (edit : CommentEdit) (c : Comment) (action : a = .updateComment id edit)
      (found : view.comments.get? id = some c) (vars : b'.vars = b.vars)
      (comments : b'.comments = b.comments.insert id (edit.apply now c))
  | dropComment (id : String) (c : Comment) (action : a = .deleteComment id) (found : view.comments.get? id = some c)
      (vars : b'.vars = b.vars) (comments : b'.comments = b.comments.erase id)

theorem vars_removeVariable {id : String} {r : Receipt} (h : (b.removeVariable id).result = .ok r) :
    (b.removeVariable id).board = { b with vars := b.vars.erase id } := by
  unfold removeVariable at h ⊢
  split
  · rfl
  · rename_i hv
    rw [hv] at h
    cases h

theorem comments_removeComment {id : String} {r : Receipt} (h : (b.removeComment id).result = .ok r) :
    (b.removeComment id).board = { b with comments := b.comments.erase id } := by
  unfold removeComment at h ⊢
  split
  · rfl
  · rename_i hc
    rw [hc] at h
    cases h

theorem board_upsertVariable {v : Variable} (hid : v.id ≠ "") :
    (b.upsertVariable v).board = { b with vars := b.vars.insert v.id v } := by
  unfold upsertVariable
  rw [if_neg hid]

/-- A comment that has an id is stored under it, in the layer that it says it is in. -/
theorem board_upsertComment {c : Comment} (hid : c.id ≠ "") {r : Receipt} (h : (b.upsertComment c c.layer).result = .ok r) :
    (b.upsertComment c c.layer).board = { b with comments := b.comments.insert c.id c } := by
  have hsame : (if c.layer.isSome then { c with layer := c.layer } else c) = c := by split <;> rfl
  unfold upsertComment at h ⊢
  cases hlayer : b.needLayer? c.layer with
  | error e =>
    rw [hlayer] at h
    cases h
  | ok u =>
    dsimp only [Effect.given]
    rw [hsame, if_neg hid]

theorem viewVariable_eq_ok {id : String} {v : Variable} : view.viewVariable id = .ok v ↔ view.vars.get? id = some v := by
  unfold viewVariable
  cases view.vars.get? id <;> simp

theorem viewComment_eq_ok {id : String} {c : Comment} : view.viewComment id = .ok c ↔ view.comments.get? id = some c := by
  unfold viewComment
  cases view.comments.get? id <;> simp

/-- The id that something is found under is not the empty one. -/
theorem Recorded.ne_of_variable (h : b.Recorded) {id : String} {v : Variable} (hv : b.vars.get? id = some v) : id ≠ "" := by
  rintro rfl
  rw [h.variableId] at hv
  cases hv

theorem Recorded.ne_of_comment (h : b.Recorded) {id : String} {c : Comment} (hc : b.comments.get? id = some c) : id ≠ "" := by
  rintro rfl
  rw [h.commentId] at hc
  cases hc

theorem textStep {s : References} (hview : view.Recorded) (hcreate : a.createsText = false)
    (hm : a.mutation s view now = .ok m) {r : Receipt} (hok : (b.execute m).result = .ok r) :
    TextStep now view b a (b.execute m).board := by
  obtain ⟨hperform, hboard⟩ := execute_of_ok hok
  cases hchanges : a.changesTexts with
  | false =>
    refine .kept hchanges (sameTexts_execute ?_)
    rw [Action.changesTexts_mutation hm, hchanges]
  | true =>
    rw [hboard]
    cases Action.asks_of_mutation hm with
    | @updateVariable id edit v hv =>
      have hfound := viewVariable_eq_ok.mp hv
      have hid : (edit.apply v).id = id := hview.vars id v hfound
      have hvars := board_upsertVariable (b := b) (v := edit.apply v) (by rw [hid]; exact hview.ne_of_variable hfound)
      rw [hid] at hvars
      show TextStep now view b _ (b.upsertVariable (edit.apply v)).board.countChange
      rw [hvars]
      exact .setVariable id edit v rfl hfound rfl rfl
    | @deleteVariable id v hv =>
      show TextStep now view b _ (b.removeVariable id).board.countChange
      rw [vars_removeVariable hperform]
      exact .dropVariable id v rfl (viewVariable_eq_ok.mp hv) rfl rfl
    | @updateComment id edit c hc =>
      have hfound := viewComment_eq_ok.mp hc
      have hid : (edit.apply now c).id = id := hview.comments id c hfound
      have hcomments := board_upsertComment (b := b) (c := edit.apply now c)
        (by rw [hid]; exact hview.ne_of_comment hfound) hperform
      rw [hid] at hcomments
      show TextStep now view b _ (b.upsertComment (edit.apply now c) (edit.apply now c).layer).board.countChange
      rw [hcomments]
      exact .setComment id edit c rfl hfound rfl rfl
    | @deleteComment id c hc =>
      show TextStep now view b _ (b.removeComment id).board.countChange
      rw [comments_removeComment hperform]
      exact .dropComment id c rfl (viewComment_eq_ok.mp hc) rfl rfl
    | createVariable | createComment => cases hcreate
    | _ => cases hchanges

theorem Recorded.of_vars (hb : b.Recorded) (hvars : b'.vars.Keyed Variable.id) (hid : b'.vars.get? "" = none)
    (hcomments : b'.comments = b.comments) : b'.Recorded where
  vars := hvars
  comments := by
    rw [hcomments]
    exact hb.comments
  variableId := hid
  commentId := by
    rw [hcomments]
    exact hb.commentId

theorem Recorded.of_comments (hb : b.Recorded) (hcomments : b'.comments.Keyed Comment.id) (hid : b'.comments.get? "" = none)
    (hvars : b'.vars = b.vars) : b'.Recorded where
  vars := by
    rw [hvars]
    exact hb.vars
  comments := hcomments
  variableId := by
    rw [hvars]
    exact hb.variableId
  commentId := hid

theorem TextStep.recorded (h : TextStep now view b a b') (hview : view.Recorded) (hb : b.Recorded) : b'.Recorded := by
  cases h with
  | kept _ same => exact same.recorded hb
  | setVariable id edit v _ found vars comments =>
    have hid : (edit.apply v).id = id := hview.vars id v found
    refine hb.of_vars ?_ ?_ comments
    · rw [vars, ← hid]
      exact hb.vars.insert (edit.apply v)
    · rw [vars, KeyMap.get?_insert, if_neg (hview.ne_of_variable found), hb.variableId]
  | dropVariable id v _ found vars comments =>
    refine hb.of_vars ?_ ?_ comments
    · rw [vars]
      exact hb.vars.erase id
    · rw [vars, KeyMap.get?_erase, hb.variableId, ite_self]
  | setComment id edit c _ found vars comments =>
    have hid : (edit.apply now c).id = id := hview.comments id c found
    refine hb.of_comments ?_ ?_ vars
    · rw [comments, ← hid]
      exact hb.comments.insert (edit.apply now c)
    · rw [comments, KeyMap.get?_insert, if_neg (hview.ne_of_comment found), hb.commentId]
  | dropComment id c _ found vars comments =>
    refine hb.of_comments ?_ ?_ vars
    · rw [comments]
      exact hb.comments.erase id
    · rw [comments, KeyMap.get?_erase, hb.commentId, ite_self]

end Board

/-! ### Aspects -/

namespace Action

/-- The edit of a variable that an action asks for. -/
def variableEdit? (x : String) : Action → Option VariableEdit
  | updateVariable id edit => if id = x then some edit else none
  | _ => none

def deletesVariable (x : String) : Action → Bool
  | deleteVariable id => id = x
  | _ => false

/-- The edit of a comment that an action asks for. -/
def commentEdit? (x : String) : Action → Option CommentEdit
  | updateComment id edit => if id = x then some edit else none
  | _ => none

def deletesComment (x : String) : Action → Bool
  | deleteComment id => id = x
  | _ => false

end Action

/-- What is put in the place of something that a view has: what an edit makes of it, or nothing. -/
def Action.effect? {α ε : Type} (edit? : Action → Option ε) (deletes : Action → Bool) (put : ε → α → α) (a : Action) :
    Option (α → Option α) :=
  match edit? a with
  | some edit => some fun v => some (put edit v)
  | none => if deletes a then some fun _ => none else none

/-- A variable or comment, as it is seen of a board, edited and deleted. An applied command leaves it as the board
    has it, or replaces it by what comes of the one that the view has. -/
structure Aspect (α ε : Type) (now : UInt64) where
  look : Board → Option α
  edit? : Action → Option ε
  deletes : Action → Bool
  put : ε → α → α
  same : ∀ {b b'}, Board.SameTexts b b' → look b' = look b
  apart : ∀ {a : Action}, (edit? a).isSome = true → deletes a = false
  step : ∀ {view b b' : Board} {a : Action}, Board.TextStep now view b a b' →
    look b' = match a.effect? edit? deletes put with
      | some f => (look view).bind f
      | none => look b

namespace Aspect

def ofVariable (x : String) (now : UInt64) : Aspect Variable VariableEdit now where
  look b := b.vars.get? x
  edit? := Action.variableEdit? x
  deletes := Action.deletesVariable x
  put := VariableEdit.apply
  same h := by rw [h.vars]
  apart {a} h := by cases a <;> first | rfl | cases h
  step {view b b' a} h := by
    cases h with
    | kept other same => cases a <;> first | exact congrArg (KeyMap.get? · x) same.vars | cases other
    | setVariable id edit v action found vars comments =>
      subst action
      simp only [Action.effect?, Action.variableEdit?, Action.deletesVariable]
      rw [vars, KeyMap.get?_insert]
      by_cases hid : id = x
      · subst hid
        simp [found]
      · simp [hid]
    | dropVariable id v action found vars comments =>
      subst action
      simp only [Action.effect?, Action.variableEdit?, Action.deletesVariable]
      rw [vars, KeyMap.get?_erase]
      by_cases hid : id = x
      · subst hid
        simp [found]
      · simp [hid]
    | setComment id edit c action found vars comments =>
      subst action
      exact congrArg (KeyMap.get? · x) vars
    | dropComment id c action found vars comments =>
      subst action
      exact congrArg (KeyMap.get? · x) vars

def ofComment (x : String) (now : UInt64) : Aspect Comment CommentEdit now where
  look b := b.commentText? x
  edit? := Action.commentEdit? x
  deletes := Action.deletesComment x
  put edit c := (edit.apply now c).text
  same h := h.comments x
  apart {a} h := by cases a <;> first | rfl | cases h
  step {view b b' a} h := by
    have hsame : ∀ {b b' : Board}, b'.comments = b.comments → b'.commentText? x = b.commentText? x := by
      intro b b' hcomments
      unfold Board.commentText?
      rw [hcomments]
    cases h with
    | kept other same => cases a <;> first | exact same.comments x | cases other
    | setVariable id edit v action found vars comments =>
      subst action
      exact hsame comments
    | dropVariable id v action found vars comments =>
      subst action
      exact hsame comments
    | setComment id edit c action found vars comments =>
      subst action
      simp only [Action.effect?, Action.commentEdit?, Action.deletesComment, Board.commentText?]
      rw [comments, KeyMap.get?_insert]
      by_cases hid : id = x
      · subst hid
        simp only [if_pos, found, Option.map_some, Option.bind_some]
        rfl
      · simp [hid]
    | dropComment id c action found vars comments =>
      subst action
      simp only [Action.effect?, Action.commentEdit?, Action.deletesComment, Board.commentText?]
      rw [comments, KeyMap.get?_erase]
      by_cases hid : id = x
      · subst hid
        simp [found]
      · simp [hid]

end Aspect

end Workboard
