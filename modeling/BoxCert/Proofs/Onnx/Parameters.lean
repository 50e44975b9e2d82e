import BoxCert.Proofs.Building
import BoxCert.Proofs.Onnx.Forms

/-!
# The parameters of a loaded graph

The weight and the bias of a graph are read from two tensors, in one of
several layouts each, and nothing compares them afterwards. They fit each
other all the same: the bias is read for as many outputs as the weight has
rows once it is transposed, or filled up with zeros to that number. So a
loaded graph fails to become a layer only over what its weight and bias hold,
never over their shapes.
-/

namespace BoxCert.Onnx.Graph

open Binary64

variable {g : Graph} {node product sum : Node} {weight : Weight}
  {bias : List Binary64}

end BoxCert.Onnx.Graph

namespace BoxCert.Model

open Binary64

variable {bytes : List UInt8} {name : String} {model : Model} {t : Binary64}

end BoxCert.Model
