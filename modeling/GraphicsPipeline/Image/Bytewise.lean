import GraphicsPipeline.Image.Texture
import GraphicsPipeline.Stepwise
import GraphicsPipeline.Word.Basic

/-!
# Clears, byte by byte

A clear as it goes over the bytes of an image. The data is cut into rows, those above the rectangle
are left out and those within are taken, a span is cut out of each, and the span is cut into texels.
No cut and no difference is taken for granted: one that is not possible aborts.
-/

namespace GraphicsPipeline

namespace Bytes

/-- The bytes between two places, if the places are in order and within. -/
def span (start stop : Nat) (bytes : Bytes) : Except Fault Bytes :=
  if start ≤ stop ∧ stop ≤ bytes.length then .ok ((bytes.drop start).take (stop - start))
  else .error .aborted

/-- A step on the bytes between two places. -/
def onSpan (start stop : Nat) (f : Step Bytes) : Step Bytes :=
  Step.onPart (span start stop) (fun part bytes => bytes.take start ++ part ++ bytes.drop stop) f

/-- A step on chosen ones of the pieces of `size` bytes, which are numbered from zero. Bytes that
are left over at the end are no piece. -/
def onPieces (size : Nat) (choose : List Nat → List Nat) (f : Step Bytes) : Step Bytes :=
  fun bytes =>
    if size = 0 then Step.fail .aborted bytes
    else
      Step.each (fun k => onSpan (size * k) (size * k + size) f)
        (choose (List.range (bytes.length / size))) bytes

/-- Puts bytes in the place of as many others. -/
def replace (new : Bytes) : Step Bytes := fun bytes =>
  if bytes.length = new.length then (new, .ok ()) else (bytes, .error .aborted)

end Bytes

namespace Texture.Bytewise

open Bytes

/-- A step on the bytes of an image. -/
def onData (f : Step Bytes) : Step Texture :=
  Step.onPart (fun t => .ok (Storage.toBytes t.data))
    (fun bytes t => { t with data := Storage.ofBytes bytes }) f

/-- Writes a texel at every pixel of a rectangle. -/
def fill (texel : Texel) (r : Rect) : Step Texture := fun t =>
  if t.width < r.maxX ∨ t.height < r.maxY then Step.fail (.refused r.refusal) t
  else if r.isEmpty then Step.skip t
  else
    Step.looking (fun _ => orAbort (Checked.sub32? r.maxY r.minY)) (fun count =>
      onData (onPieces t.stride (fun rows => (rows.drop r.minY.toNat).take count.toNat)
        (onSpan (r.minX.toNat * 4) (r.maxX.toNat * 4)
          (onPieces 4 id (replace texel.toList))))) t

def clearColor (c : Color) (r : Rect) : Step Texture := fill c.pack r

def clearDepth (d : UInt32) (r : Rect) : Step Texture := fill (.ofWord d) r

end Texture.Bytewise

end GraphicsPipeline
