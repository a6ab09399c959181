import Credence.Check.Ascription
import Credence.Check.Call

namespace Credence.Check

open CheckM

def paramInfo (inner : Inner) (p : Param Expr) (default? : Option Expr) : CheckM ParamInfo := do
  let ascribed ← p.ascription.mapM ascription
  let default ← default?.mapM inner.expr
  return { name := p.name, ascribed, default }

def signatureOf (inner : Inner) (params : Params Expr) : CheckM Signature := do
  let args ← params.args.zipIdx.mapM fun (p, i) => paramInfo inner p (params.defaultFor? i)
  let vararg ← params.vararg.mapM fun p => paramInfo inner p none
  let kwonly ← params.kwonly.zipIdx.mapM fun (p, i) =>
    paramInfo inner p (params.kwDefaults[i]?.join)
  let kwarg ← params.kwarg.mapM fun p => paramInfo inner p none
  return { args, vararg, kwonly, kwarg }

end Credence.Check
