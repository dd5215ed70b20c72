import Dxgmx.Tools.ConfRoundTrip

open Library

namespace Dxgmx

namespace ConfigTree

end ConfigTree

end Dxgmx
