import Mathlib.Data.Nat.Notation
import Mathlib.Tactic.Lemma
import InstallPolicy.Document.Decode

/-!
What the readers of documents have in common in two settings.

Whatever they run on, they are put together from the same few ways to take something from an input.
So a relation between the programs of two settings that holds of these ways and passes through
sequences of programs holds of all readers of documents.
-/

namespace InstallPolicy

open Document Input

/-- Neither missing nor trailing bytes are the error. -/
def DecodeError.isFinal : DecodeError → Bool
  | truncated .. | trailingBytes _ => false
  | _ => true

variable {m n : Type → Type} [Monad m] [MonadExceptOf DecodeError m] [Input m]
  [Monad n] [MonadExceptOf DecodeError n] [Input n]

/-- A relation between programs of two settings that passes from the parts of a reader to the
reader. -/
structure Input.Parametric (R : ∀ α : Type, m α → n α → Prop) : Prop where
  pure {α : Type} (a : α) : R α (pure a) (pure a)
  throw {α : Type} {e : DecodeError} : e.isFinal = true → R α (throw e) (throw e)
  bind {α β : Type} {x : m α} {y : n α} {f : α → m β} {g : α → n β} :
    R α x y → (∀ a, R β (f a) (g a)) → R β (x >>= f) (y >>= g)
  byte : R UInt8 byte byte
  take (k : ℕ) : R Bytes (take k) (take k)
  number (width : ℕ) : R ℕ (number width) (number width)
  require (k : ℕ) : R Unit (require k) (require k)
  enter {above : ℕ} : above ≤ maxDepth → R Unit (enter above) (enter above)

namespace Input.Parametric

variable {R : ∀ α : Type, m α → n α → Prop} {α : Type}

/-! ### Fields -/

lemma count (h : Parametric R) : R ℕ count count :=
  h.bind (h.number 4) fun k => h.bind (h.require k) fun _ => h.pure k

lemma flag (h : Parametric R) : R Bool flag flag := by
  refine h.bind h.byte fun b => ?_
  split
  · exact h.pure _
  split
  · exact h.pure _
  · exact h.throw rfl

lemma integer (h : Parametric R) : R Int64 integer integer :=
  h.bind (h.number 8) fun _ => h.pure _

lemma checked (h : Parametric R) : (x : Except FormulaError α) → R α (checked x) (checked x)
  | .ok a => h.pure a
  | .error _ => h.throw rfl

lemma word (h : Parametric R) (ofCode : Int → Except FormulaError α) :
    R α (word ofCode) (word ofCode) :=
  h.bind h.byte fun _ => h.checked _

lemma text (h : Parametric R) (limit : ℕ) : R String (text limit) (text limit) := by
  refine h.bind (h.number 4) fun k => ?_
  split
  · exact h.throw rfl
  · refine h.bind (h.take k) fun bytes => ?_
    cases Bytes.toText? bytes with
    | some s => exact h.pure s
    | none => exact h.throw rfl

lemma many (h : Parametric R) {x : m α} {y : n α} (hxy : R α x y) :
    (k : ℕ) → R (List α) (many x k) (many y k)
  | 0 => h.pure []
  | k + 1 => h.bind hxy fun _ => h.bind (h.many hxy k) fun _ => h.pure _

/-! ### Nodes -/

lemma readAtom (h : Parametric R) (tag : UInt8) : R Atom (readAtom tag) (readAtom tag) := by
  refine h.bind (h.word _) fun key => h.bind (h.word _) fun operator => ?_
  split
  · exact h.bind (h.text _) fun _ => h.bind h.flag fun _ => h.checked _
  split
  · exact h.bind h.integer fun _ => h.checked _
  split
  · exact h.bind h.flag fun _ => h.checked _
  · exact h.throw rfl

lemma readTagged (h : Parametric R) {above : ℕ} {x : m Formula} {y : n Formula}
    (habove : above ≤ maxDepth) (hxy : R Formula x y) :
    R Formula (readTagged above x) (readTagged above y) := by
  refine h.bind (h.enter habove) fun _ => h.bind h.byte fun tag => ?_
  split
  · exact hxy
  · exact h.bind (h.readAtom tag) fun _ => h.pure _

variable {x : m ℕ} {y : n ℕ}

/-- The compounds above a node are counted up where the levels below it are counted down. Their sum
stays, so no node is entered below too many compounds. -/
lemma readNode (h : Parametric R) (hcount : R ℕ x y) {above levels : ℕ}
    (hlevels : above + levels = maxDepth) :
    R Formula (readNode x above levels) (readNode y above levels) := by
  induction levels generalizing above with
  | zero => exact h.readTagged (by omega) (h.throw rfl)
  | succ levels ih =>
    have hchild := ih (show above + 1 + levels = maxDepth by omega)
    refine h.readTagged (by omega) (h.bind (h.word _) fun c => h.bind hcount fun k => ?_)
    exact h.bind (h.many hchild k) fun _ => h.checked _

/-! ### Documents -/

lemma readRule (h : Parametric R) (hcount : R ℕ x y) : R Rule (readRule x) (readRule y) :=
  h.bind (h.word _) fun _ => h.bind (h.readNode hcount (Nat.zero_add maxDepth)) fun _ => h.pure _

lemma readVersion (h : Parametric R) : R Unit readVersion readVersion := by
  refine h.bind h.byte fun b => ?_
  split
  · exact h.throw rfl
  · exact h.pure _

lemma readMagic (h : Parametric R) : R Unit readMagic readMagic := by
  refine h.bind (h.take _) fun bytes => ?_
  split
  · exact h.throw rfl
  · exact h.pure _

lemma readFormulaDocument (h : Parametric R) (hcount : R ℕ x y) :
    R Formula (readFormulaDocument x) (readFormulaDocument y) :=
  h.bind h.readVersion fun _ => h.readNode hcount (Nat.zero_add maxDepth)

lemma readRuleDocument (h : Parametric R) (hcount : R ℕ x y) :
    R Rule (readRuleDocument x) (readRuleDocument y) :=
  h.bind h.readVersion fun _ => h.readRule hcount

lemma readRuleListDocument (h : Parametric R) (hcount : R ℕ x y) :
    R (List Rule) (readRuleListDocument x) (readRuleListDocument y) :=
  h.bind h.readMagic fun _ => h.bind h.readVersion fun _ => h.bind hcount fun k =>
    h.many (h.readRule hcount) k

end Input.Parametric

end InstallPolicy
