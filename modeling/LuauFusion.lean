import LuauFusion.Delivery
import LuauFusion.Completion
import LuauFusion.Exclusion
import LuauFusion.Payload
import LuauFusion.Text
import LuauFusion.Lib.Url
import LuauFusion.ModLoader
import LuauFusion.Loading
import LuauFusion.Startup
import LuauFusion.Imports
import LuauFusion.Aftermath
import LuauFusion.Failures
import LuauFusion.Calls
import LuauFusion.Reports
import LuauFusion.Handlers
import LuauFusion.SearchParams
import LuauFusion.ParamList
import LuauFusion.PatternResult
import LuauFusion.EncodeInto
import LuauFusion.TextStreams
import LuauFusion.Launch
import LuauFusion.Webidl
