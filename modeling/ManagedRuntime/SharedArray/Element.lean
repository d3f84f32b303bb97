import ManagedRuntime.Number.Shortest
import ManagedRuntime.SharedArray.Pool
import ManagedRuntime.Text.Quoted

/-!
# Elements of arrays

Words, floating-point numbers and texts refer to nothing. Arrays are elements as well: as an element an
array is a reference to a buffer of another pool, and copying it adds a reference.
-/

namespace ManagedRuntime.SharedArray

set_option autoImplicit false

instance : Element Int32 Unit Int32 where
  start := ()
  make s w := (w, s)
  filler s := (0, s)
  copy s _ := s
  release s _ := s
  same _ v w := v == w
  describe _ w := Decimal.digits w

instance : Element Binary64 Unit Binary64 where
  start := ()
  make s x := (x, s)
  filler s := (.zero, s)
  copy s _ := s
  release s _ := s
  same _ x y := x.same y
  describe _ x := Shortest.toCharacters x

instance : Element Text Unit Text where
  start := ()
  make s t := (t, s)
  filler s := (.empty, s)
  copy s _ := s
  release s _ := s
  same _ t u := t == u
  describe _ t := t.describe

instance {β τ κ : Type} [Element β τ κ] : Element (Ref β) (Pool β τ) (List κ) where
  start := Pool.start
  make := Pool.ofLiterals
  filler p := p.alloc []
  copy := Pool.retain
  release := Pool.release
  same := Pool.same
  describe := Pool.describe

end ManagedRuntime.SharedArray
