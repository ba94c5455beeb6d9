import MonkeyFrontEnd.Tree

/-!
Equality of trees is decidable: two trees are equal if they have the same shape and the same tokens,
spans and file names included.
-/

namespace MonkeyFrontEnd

mutual

def Expr.same : Expr → Expr → Bool
  | .identifier a, .identifier b => a == b
  | .integer s m, .integer t n => s == t && m == n
  | .boolean s m, .boolean t n => s == t && m == n
  | .unary s o a, .unary t p b => s == t && o == p && a.same b
  | .binary s o a b, .binary t p c d => s == t && o == p && a.same c && b.same d
  | .ifThen s a b, .ifThen t c d => s == t && a.same c && b.same d
  | .ifElse s a b e, .ifElse t c d f => s == t && a.same c && b.same d && e.same f
  | _, _ => false
termination_by structural a => a

def Block.same : Block → Block → Bool
  | .mk s ss, .mk t ts => s == t && Stmt.sameAll ss ts
termination_by structural a => a

def Stmt.same : Stmt → Stmt → Bool
  | .letStmt s i a, .letStmt t j b => s == t && i == j && a.same b
  | .bareReturn s, .bareReturn t => s == t
  | .returnValue s a, .returnValue t b => s == t && a.same b
  | .expression s a, .expression t b => s == t && a.same b
  | .block a, .block b => a.same b
  | _, _ => false
termination_by structural a => a

def Stmt.sameAll : List Stmt → List Stmt → Bool
  | [], [] => true
  | s :: ss, t :: ts => s.same t && Stmt.sameAll ss ts
  | _, _ => false
termination_by structural ss => ss

end

mutual

theorem Expr.same_iff : (a b : Expr) → (a.same b = true ↔ a = b)
  | .identifier a, b => by cases b <;> simp [Expr.same]
  | .integer s m, b => by cases b <;> simp [Expr.same]
  | .boolean s m, b => by cases b <;> simp [Expr.same]
  | .unary s o a, b => by
    cases b <;> simp [Expr.same, Expr.same_iff a, and_assoc]
  | .binary s o a b, c => by
    cases c <;> simp [Expr.same, Expr.same_iff a, Expr.same_iff b, and_assoc]
  | .ifThen s a b, c => by
    cases c <;> simp [Expr.same, Expr.same_iff a, Block.same_iff b, and_assoc]
  | .ifElse s a b c, d => by
    cases d <;> simp [Expr.same, Expr.same_iff a, Block.same_iff b, Block.same_iff c, and_assoc]

theorem Block.same_iff : (a b : Block) → (a.same b = true ↔ a = b)
  | .mk s ss, .mk t ts => by simp [Block.same, Stmt.sameAll_iff ss]

theorem Stmt.same_iff : (a b : Stmt) → (a.same b = true ↔ a = b)
  | .letStmt s i a, b => by cases b <;> simp [Stmt.same, Expr.same_iff a, and_assoc]
  | .bareReturn s, b => by cases b <;> simp [Stmt.same]
  | .returnValue s a, b => by cases b <;> simp [Stmt.same, Expr.same_iff a]
  | .expression s a, b => by cases b <;> simp [Stmt.same, Expr.same_iff a]
  | .block a, b => by cases b <;> simp [Stmt.same, Block.same_iff a]

theorem Stmt.sameAll_iff : (ss ts : List Stmt) → (Stmt.sameAll ss ts = true ↔ ss = ts)
  | [], ts => by cases ts <;> simp [Stmt.sameAll]
  | s :: ss, ts => by cases ts <;> simp [Stmt.sameAll, Stmt.same_iff s, Stmt.sameAll_iff ss]

end

instance : DecidableEq Expr := fun a b => decidable_of_iff (a.same b = true) (Expr.same_iff a b)

instance : DecidableEq Block := fun a b => decidable_of_iff (a.same b = true) (Block.same_iff a b)

instance : DecidableEq Stmt := fun a b => decidable_of_iff (a.same b = true) (Stmt.same_iff a b)

deriving instance DecidableEq for Program

end MonkeyFrontEnd
