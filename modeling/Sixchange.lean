import Sixchange.Book.Holders
import Sixchange.Book.LevelRuns
import Sixchange.Book.Session
import Sixchange.Codec.LineEnding
import Sixchange.Engine.AsNew
import Sixchange.Engine.BestExecution
import Sixchange.Engine.BestPrices
import Sixchange.Engine.Capacity
import Sixchange.Engine.Conservation
import Sixchange.Engine.Depth
import Sixchange.Engine.EventProtocol
import Sixchange.Engine.EventReplica
import Sixchange.Engine.Limits
import Sixchange.Engine.Lookup
import Sixchange.Engine.Overtaking
import Sixchange.Engine.Reference
import Sixchange.Engine.Representation
import Sixchange.Engine.Splitting
import Sixchange.Engine.Symmetry
import Sixchange.Engine.Turnover
import Sixchange.Gateway.Agreement
import Sixchange.Gateway.Deletion
import Sixchange.Gateway.Reference
import Sixchange.Gateway.Responses
import Sixchange.Gateway.Warnings
import Sixchange.Gateway.Withdrawal
import Sixchange.Logging.Delivery
import Sixchange.Logging.File
import Sixchange.Logging.Formatting
import Sixchange.Logging.Ring
import Sixchange.Logging.Termination
import Sixchange.Map.Layout
import Sixchange.Stress.Orders
import Sixchange.Stress.Program
